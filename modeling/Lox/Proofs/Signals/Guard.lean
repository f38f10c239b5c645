/-
  Lox.Proofs.Signals.Guard
  ────────────────────────────────
  **NO SIGNAL IS EVER DROPPED.**

  A program goes on behind whatever its statements signal, and a call takes a
  stray `break` for the end of the body.  `Guarded` is the evaluator that looks:
  it does something else, of the reader's choice, as soon as

    • a statement of the program ends with anything but `next`,
    • a statement of a function body ends with a `break` or a `continue`,
    • a loop ends with one of these.

  On programs that have been read and expanded without a fault it comes to the
  same as the evaluator that does not look (`runProgram_same`), so none of
  this ever happens, however deep in calls, loops and callbacks, in functions of
  this program and of those before it.  What carries the proof is that all
  functions in the frames have well-formed bodies (`Value.Shaped`).
-/
import Lox.Proofs.CurrentFrame
import Lox.Proofs.Holding
import Lox.Proofs.Safety
import Lox.Proofs.Signals.Log

namespace Lox

open Parse (Context)

/-! ## §1. An evaluator that looks. -/

/-- Compute a signal, and do something else if it is not taken here. -/
def Eval.guard (stray : Eval Signal) (taken : Signal → Bool) (p : Eval Signal) : Eval Signal := do
  let signal ← p
  if taken signal then return signal else stray

namespace Guarded

open Eval (values valueOrNil sequence rounds loopStep call functionValue decides get assign define
  current newFrame inFrame newClosure print flush doAll fail ofExcept exhausted guard)

mutual

/-- The value of an expression. The bodies of the functions that are called must
not end with a `break` or a `continue`. -/
def evaluate (stray : Eval Signal) (host : Host) : (bound : Nat) → Expr → Eval Value
  | 0, _ => exhausted
  | n + 1, e =>
    match e with
    | .literal value => pure (.ofLiteral value)
    | .group inner => evaluate stray host n inner
    | .name token => get token
    | .assign target value => do
      let v ← evaluate stray host n value
      assign target v
      return v
    | .unary operator operand => do
      let v ← evaluate stray host n operand
      ofExcept (v.unary operator)
    | .binary left operator right => do
      let l ← evaluate stray host n left
      let r ← evaluate stray host n right
      ofExcept (l.binary operator r)
    | .logical left operator right => do
      let l ← evaluate stray host n left
      if ← ofExcept (decides operator l) then return l
      else evaluate stray host n right
    | .call callee paren arguments => do
      let f ← evaluate stray host n callee
      let given ← values (evaluate stray host n) arguments
      call host (fun s => guard stray Signal.endsBody (execute stray host n s)) f paren given
    | .function name parameters body => functionValue name parameters body
    | .pipe _ operator _ =>
      fail (.host ("line " ++ toString operator.line ++
        ": pipe reached the evaluator without being desugared"))

/-- Do a statement. A loop must not end with a `break` or a `continue`. -/
def execute (stray : Eval Signal) (host : Host) : (bound : Nat) → Stmt → Eval Signal
  | 0, _ => exhausted
  | n + 1, s =>
    match s with
    | .expr value => do
      let _ ← evaluate stray host n value
      return .next
    | .print value => do
      print (← evaluate stray host n value)
      return .next
    | .var name initial => do
      define name.lexeme (← valueOrNil (evaluate stray host n) initial)
      return .next
    | .block body => do
      let frame ← newFrame (← current) []
      inFrame frame (sequence (execute stray host n) body)
    | .branch condition yes no => do
      if (← evaluate stray host n condition).isTruthy then execute stray host n yes
      else match no with
        | some other => execute stray host n other
        | none => return .next
    | .loop condition body increment =>
      guard stray Signal.endsBody
        (rounds (evaluate stray host n condition) (execute stray host n body)
          (loopStep (evaluate stray host n) increment body) n)
    | .function name parameters body => do
      define name.lexeme (← newClosure (some name.lexeme) parameters body (← current))
      return .next
    | .give _ value => do
      return .give (← valueOrNil (evaluate stray host n) value)
    | .leave _ => return .leave
    | .next _ => return .skip

end

/-- Run a program. Its statements must end with `next`. -/
def runProgram (stray : Eval Signal) (host : Host) (bound : Nat) (program : List Stmt) :
    Eval Unit := do
  doAll (fun s => guard stray Signal.isNext (execute stray host bound s)) program
  flush

end Guarded

/-! ## §2. The same on machines with well-formed functions. -/

/-- A function has a well-formed body. -/
def Value.Shaped : Value → Prop
  | .function closure => Stmt.AllWellFormed .ofFunction closure.body
  | _ => True

theorem Value.shaped_of_not_callable (v : Value) (h : v.isCallable = false) : v.Shaped := by
  cases v with
  | function c => exact Bool.noConfusion h
  | _ => trivial

namespace Eval

variable {α β : Type}

/-- **Two computations are the same** on machines that hold well-formed functions,
they leave such a machine, and what they give has a property. -/
structure SameOn (p q : Eval α) (Q : α → Prop) : Prop where
  same : ∀ m : Machine, m.Holds Value.Shaped → p m = q m
  keeps : q.Keeps (Machine.Holds Value.Shaped) (fun _ => True) Q

namespace SameOn

variable {Q : α → Prop} {R : β → Prop}

theorem of_keeps {p : Eval α} (h : p.Keeps (Machine.Holds Value.Shaped) (fun _ => True) Q) :
    p.SameOn p Q := ⟨fun _ _ => rfl, h⟩

theorem pure {a : α} (h : Q a) : (Pure.pure a : Eval α).SameOn (Pure.pure a) Q :=
  of_keeps (Keeps.pure h)

theorem fail (failure : Failure) : (Eval.fail failure : Eval α).SameOn (Eval.fail failure) Q :=
  of_keeps (Keeps.fail trivial)

theorem exhausted : (Eval.exhausted : Eval α).SameOn Eval.exhausted Q :=
  of_keeps Keeps.exhausted

theorem bind {p q : Eval α} {k l : α → Eval β} (hp : p.SameOn q Q)
    (hk : ∀ a, Q a → (k a).SameOn (l a) R) : (p >>= k).SameOn (q >>= l) R := by
  refine ⟨fun m hm => ?_, hp.keeps.bind fun a ha => (hk a ha).keeps⟩
  have hfirst := hp.keeps m hm
  show Eval.bind p k m = Eval.bind q l m
  unfold Eval.bind
  rw [hp.same m hm]
  cases h : q m with
  | done a m' =>
    rw [h] at hfirst
    exact (hk a hfirst.2).same m' hfirst.1
  | failed failure m' => rfl
  | exhausted => rfl

theorem inFrame {p q : Eval α} (h : p.SameOn q Q) (frame : FrameId) :
    (Eval.inFrame frame p).SameOn (Eval.inFrame frame q) Q := by
  refine ⟨fun m hm => ?_, h.keeps.inFrame frame fun _ _ hm => hm⟩
  unfold Eval.inFrame
  rw [h.same { m with current := frame } hm]

theorem attempt {p q : Eval α} (h : p.SameOn q Q) :
    p.attempt.SameOn q.attempt fun answer => ∀ a, answer = .ok a → Q a := by
  refine ⟨fun m hm => ?_, h.keeps.attempt (fun a ha b hb => ?_) fun failure _ b hb => nomatch hb⟩
  · unfold Eval.attempt
    rw [h.same m hm]
  · cases hb
    exact ha

theorem relocating {p q : Eval α} (h : p.SameOn q Q) (line : Nat) :
    (Eval.relocating line p).SameOn (Eval.relocating line q) Q := by
  refine ⟨fun m hm => ?_, h.keeps.relocating line fun _ _ => trivial⟩
  unfold Eval.relocating
  rw [h.same m hm]

/-- **A guard that all signals pass does nothing.** -/
theorem guard {p q : Eval Signal} {Q : Signal → Prop} (h : p.SameOn q Q) (stray : Eval Signal)
    {taken : Signal → Bool} (htaken : q.Gives (taken · = true)) :
    (Eval.guard stray taken p).SameOn q Q := by
  refine ⟨fun m hm => ?_, h.keeps⟩
  show Eval.bind p _ m = q m
  unfold Eval.bind
  rw [h.same m hm]
  cases hq : q m with
  | done signal m' =>
    dsimp only
    rw [if_pos (htaken m signal m' hq)]
    rfl
  | failed failure m' => rfl
  | exhausted => rfl

end SameOn

/-! ## §3. Combinators. -/

section Combinators

variable {ev ev' : Expr → Eval Value} {ex ex' : Stmt → Eval Signal} {host : Host}

theorem values_same {es : List Expr} (h : ∀ e ∈ es, (ev e).SameOn (ev' e) Value.Shaped) :
    (values ev es).SameOn (values ev' es) fun vs => ∀ v ∈ vs, v.Shaped := by
  induction es with
  | nil => exact .pure nofun
  | cons e es ih =>
    refine (h e (.head _)).bind fun v hv => ?_
    refine (ih fun e he => h e (.tail _ he)).bind fun vs hvs => .pure ?_
    intro w hw
    cases hw with
    | head => exact hv
    | tail _ hw => exact hvs w hw

theorem valueOrNil_same {o : Option Expr}
    (h : ∀ e, o = some e → (ev e).SameOn (ev' e) Value.Shaped) :
    (valueOrNil ev o).SameOn (valueOrNil ev' o) Value.Shaped := by
  cases o with
  | none => exact .pure trivial
  | some e => exact h e rfl

theorem sequence_same {ss : List Stmt}
    (h : ∀ s ∈ ss, (ex s).SameOn (ex' s) (Signal.All Value.Shaped)) :
    (sequence ex ss).SameOn (sequence ex' ss) (Signal.All Value.Shaped) := by
  induction ss with
  | nil => exact .pure trivial
  | cons s ss ih =>
    refine (h s (.head _)).bind fun signal hsignal => ?_
    cases signal with
    | next => exact ih fun s hs => h s (.tail _ hs)
    | give v => exact .pure hsignal
    | leave => exact .pure trivial
    | skip => exact .pure trivial

theorem doAll_same {ss : List Stmt}
    (h : ∀ s ∈ ss, (ex s).SameOn (ex' s) (Signal.All Value.Shaped)) :
    (doAll ex ss).SameOn (doAll ex' ss) fun _ => True := by
  induction ss with
  | nil => exact .pure trivial
  | cons s ss ih => exact (h s (.head _)).bind fun _ _ => ih fun s hs => h s (.tail _ hs)

theorem rounds_same {condition condition' : Eval Value} {body body' : Eval Signal}
    {step step' : Eval Unit} (hc : condition.SameOn condition' Value.Shaped)
    (hb : body.SameOn body' (Signal.All Value.Shaped)) (hs : step.SameOn step' fun _ => True)
    (n : Nat) :
    (rounds condition body step n).SameOn (rounds condition' body' step' n)
      (Signal.All Value.Shaped) := by
  induction n with
  | zero => exact .exhausted
  | succ n ih =>
    refine hc.bind fun v _ => ?_
    by_cases hv : v.isTruthy = true
    · rw [if_pos hv, if_pos hv]
      refine hb.bind fun signal hsignal => ?_
      cases signal with
      | next => exact ih
      | give v => exact .pure hsignal
      | leave => exact .pure trivial
      | skip => exact hs.bind fun _ _ => ih
    · rw [if_neg hv, if_neg hv]
      exact .pure trivial

/-- The bodies that functions in the frames may have are run in the same way. -/
abbrev SameBodies (ex ex' : Stmt → Eval Signal) : Prop :=
  ∀ body, Stmt.AllWellFormed .ofFunction body →
    (sequence ex body).SameOn (sequence ex' body) (Signal.All Value.Shaped)

theorem enter_same (hx : SameBodies ex ex') {c : Closure} (hc : (Value.function c).Shaped)
    {vs : List Value} (hvs : ∀ v ∈ vs, v.Shaped) :
    (enter ex c vs).SameOn (enter ex' c vs) Value.Shaped := by
  unfold enter
  have hframe := newFrame_holds (E := fun _ => True) c.frame (Bindings.all_ofLists c.parameters hvs)
  refine (SameOn.of_keeps hframe).bind fun frame _ => ?_
  refine ((hx c.body hc).inFrame frame).bind fun signal hsignal => ?_
  cases signal with
  | give v => exact .pure hsignal
  | next => exact .pure trivial
  | leave => exact .pure trivial
  | skip => exact .pure trivial

theorem perform_same (hx : SameBodies ex ex') {a : Action} (ha : a.Handles Value.Shaped) :
    (perform host (enter ex) a).SameOn (perform host (enter ex') a) Value.Shaped := by
  induction ha with
  | give hv => exact .pure hv
  | raise fault => exact .fail _
  | abort text => exact .fail _
  | readClock _ ih => exact (SameOn.of_keeps readClock_holds).bind fun now _ => ih now
  | call hc hvs _ _ ihgiven ihfailed =>
    refine (enter_same hx hc hvs).attempt.bind fun answer hanswer => ?_
    cases answer with
    | ok v => exact ihgiven v (hanswer v rfl)
    | error failure => exact ihfailed failure

theorem call_same (hh : host.Handles Value.Shaped) (hx : SameBodies ex ex') {callee : Value}
    (hc : callee.Shaped) (paren : Token) {vs : List Value} (hvs : ∀ v ∈ vs, v.Shaped) :
    (call host ex callee paren vs).SameOn (call host ex' callee paren vs) Value.Shaped := by
  unfold call
  cases callee with
  | function c =>
    dsimp only
    by_cases hn : vs.length = c.parameters.length
    · rw [if_pos hn, if_pos hn]
      exact enter_same hx hc hvs
    · rw [if_neg hn, if_neg hn]
      exact .fail _
  | native n =>
    dsimp only
    by_cases hn : vs.length = n.arity
    · rw [if_pos hn, if_pos hn]
      exact (perform_same hx (hh.act n hvs)).relocating paren.line
    · rw [if_neg hn, if_neg hn]
      exact .fail _
  | _ => exact .fail _

/-- The step of a loop is a statement of its body. -/
theorem loopStep_same (h : ∀ e : Expr, e.WellFormed → (ev e).SameOn (ev' e) Value.Shaped)
    (increment : Bool) {ctx : Context} {body : Stmt} (hb : body.WellFormed ctx) :
    (loopStep ev increment body).SameOn (loopStep ev' increment body) fun _ => True := by
  unfold loopStep
  cases increment with
  | false => exact .pure trivial
  | true =>
    cases body with
    | block statements =>
      simp only [if_true]
      cases hlast : statements.getLast? with
      | none => exact .fail _
      | some last =>
        have hw := Stmt.wellFormed_of_mem hb last (List.mem_of_getLast? hlast)
        cases last with
        | expr value => exact (h value hw).bind fun _ _ => .pure trivial
        | _ => exact .fail _
    | _ => exact .fail _

end Combinators

/-! ## §4. Expressions and statements. -/

variable {stray : Eval Signal} {host : Host} {n : Nat}

/-- At a bound, well-formed trees are evaluated and executed in the same way with
and without a look at signals. -/
structure GuardedAt (stray : Eval Signal) (host : Host) (n : Nat) : Prop where
  evaluate : ∀ e : Expr, e.WellFormed →
    (Guarded.evaluate stray host n e).SameOn (evaluate host n e) Value.Shaped
  execute : ∀ (ctx : Context) (s : Stmt), s.WellFormed ctx →
    (Guarded.execute stray host n s).SameOn (execute host n s) (Signal.All Value.Shaped)

/-- Where a function is called, its body ends as a body should. -/
theorem GuardedAt.sameBodies (ih : GuardedAt stray host n) :
    SameBodies (fun s => guard stray Signal.endsBody (Guarded.execute stray host n s))
      (Eval.execute host n) := by
  intro body hbody
  refine sequence_same fun s hs => ?_
  have hw := Stmt.wellFormed_of_mem hbody s hs
  refine (ih.execute .ofFunction s hw).guard stray fun m signal m' hend => ?_
  exact (execute_fits host n .ofFunction s hw m signal m' hend).endsBody

theorem ofExcept_same {r : Except Failure Value} (h : ∀ v, r = .ok v → v.isCallable = false) :
    (ofExcept r).SameOn (ofExcept r) Value.Shaped := by
  cases r with
  | ok v => exact .pure (v.shaped_of_not_callable (h v rfl))
  | error failure => exact .fail failure

/-- One level of an expression. -/
theorem GuardedAt.evaluate_succ (hh : host.Handles Value.Shaped) (ih : GuardedAt stray host n)
    (e : Expr) (he : e.WellFormed) :
    (Guarded.evaluate stray host (n + 1) e).SameOn (Eval.evaluate host (n + 1) e)
      Value.Shaped := by
  cases e with
  | literal value =>
    rw [Guarded.evaluate, Eval.evaluate]
    exact .pure (Value.shaped_of_not_callable _ (by cases value <;> rfl))
  | group inner =>
    rw [Guarded.evaluate, Eval.evaluate]
    exact ih.evaluate inner he
  | name token =>
    rw [Guarded.evaluate, Eval.evaluate]
    exact .of_keeps (get_holds token trivial)
  | assign target value =>
    rw [Guarded.evaluate, Eval.evaluate]
    refine (ih.evaluate value he.2).bind fun v hv => ?_
    exact (SameOn.of_keeps (assign_holds target hv trivial)).bind fun _ _ => .pure hv
  | unary operator operand =>
    rw [Guarded.evaluate, Eval.evaluate]
    exact (ih.evaluate operand he.2).bind fun v _ => ofExcept_same fun _ => Value.unary_plain
  | binary left operator right =>
    rw [Guarded.evaluate, Eval.evaluate]
    refine (ih.evaluate left he.2.1).bind fun l _ => ?_
    exact (ih.evaluate right he.2.2).bind fun r _ => ofExcept_same fun _ => Value.binary_plain
  | logical left operator right =>
    rw [Guarded.evaluate, Eval.evaluate]
    refine (ih.evaluate left he.2.1).bind fun l hl => ?_
    have hdecides : (ofExcept (decides operator l)).SameOn (ofExcept (decides operator l))
        fun _ => True := by
      cases decides operator l with
      | ok decided => exact .pure trivial
      | error failure => exact .fail failure
    refine hdecides.bind fun decided _ => ?_
    cases decided with
    | true => exact .pure hl
    | false => exact ih.evaluate right he.2.2
  | call callee paren arguments =>
    rw [Guarded.evaluate, Eval.evaluate]
    refine (ih.evaluate callee he.1).bind fun f hf => ?_
    have hall := Expr.allWellFormed_iff.1 he.2
    refine (values_same fun e hmem => ih.evaluate e (hall e hmem)).bind fun vs hvs => ?_
    exact call_same hh ih.sameBodies hf paren hvs
  | function own parameters body =>
    rw [Guarded.evaluate, Eval.evaluate]
    -- The body of a new function is well formed because it stands in the tree.
    exact .of_keeps (functionValue_holds fun _ _ _ => he)
  | pipe left operator right =>
    rw [Guarded.evaluate, Eval.evaluate]
    exact .fail _

/-- One level of a statement. -/
theorem GuardedAt.execute_succ (ih : GuardedAt stray host n) (ctx : Context) (s : Stmt)
    (hs : s.WellFormed ctx) :
    (Guarded.execute stray host (n + 1) s).SameOn (Eval.execute host (n + 1) s)
      (Signal.All Value.Shaped) := by
  have hoption : ∀ {o : Option Expr}, Expr.OptionWellFormed o →
      (valueOrNil (Guarded.evaluate stray host n) o).SameOn
        (valueOrNil (Eval.evaluate host n) o) Value.Shaped := by
    intro o ho
    refine valueOrNil_same fun e he => ih.evaluate e ?_
    subst he
    exact ho
  cases s with
  | expr value =>
    rw [Guarded.execute, Eval.execute]
    exact (ih.evaluate value hs).bind fun _ _ => .pure trivial
  | print value =>
    rw [Guarded.execute, Eval.execute]
    refine (ih.evaluate value hs).bind fun v _ => ?_
    exact (SameOn.of_keeps (print_holds v trivial)).bind fun _ _ => .pure trivial
  | var name initial =>
    rw [Guarded.execute, Eval.execute]
    refine (hoption hs.2).bind fun v hv => ?_
    exact (SameOn.of_keeps (define_holds name.lexeme hv)).bind fun _ _ => .pure trivial
  | block body =>
    rw [Guarded.execute, Eval.execute]
    refine (SameOn.of_keeps current_holds).bind fun outer _ => ?_
    refine (SameOn.of_keeps (newFrame_holds outer Bindings.all_nil)).bind fun frame _ => ?_
    refine (sequence_same fun s hmem => ?_).inFrame frame
    exact ih.execute ctx s (Stmt.wellFormed_of_mem hs s hmem)
  | branch condition yes no =>
    obtain ⟨hc, ⟨-, hy⟩, hn⟩ := hs
    rw [Guarded.execute.eq_def, Eval.execute.eq_def]
    refine (ih.evaluate condition hc).bind fun v _ => ?_
    by_cases hv : v.isTruthy = true
    · rw [if_pos hv, if_pos hv]
      exact ih.execute ctx yes hy
    · rw [if_neg hv, if_neg hv]
      cases no with
      | none => exact .pure trivial
      | some other => exact ih.execute ctx other hn.2
  | loop condition body increment =>
    obtain ⟨hc, ⟨-, hb⟩, -⟩ := hs
    rw [Guarded.execute, Eval.execute]
    have hrounds := rounds_same (ih.evaluate condition hc) (ih.execute ctx.ofLoop body hb)
      (loopStep_same ih.evaluate increment hb) n
    exact hrounds.guard stray (rounds_endsBody _ _ _ n)
  | function name parameters body =>
    rw [Guarded.execute, Eval.execute]
    refine (SameOn.of_keeps current_holds).bind fun frame _ => ?_
    have hnew : (newClosure (some name.lexeme) parameters body frame).Keeps
        (Machine.Holds Value.Shaped) (fun _ => True) Value.Shaped :=
      newClosure_holds (fun _ _ => hs.2) frame
    refine (SameOn.of_keeps hnew).bind fun v hv => ?_
    exact (SameOn.of_keeps (define_holds name.lexeme hv)).bind fun _ _ => .pure trivial
  | give keyword value =>
    rw [Guarded.execute, Eval.execute]
    exact (hoption hs.2).bind fun v hv => .pure hv
  | leave keyword =>
    rw [Guarded.execute, Eval.execute]
    exact .pure trivial
  | next keyword =>
    rw [Guarded.execute, Eval.execute]
    exact .pure trivial

/-- **Looking at signals changes nothing,** at every bound. -/
theorem guardedAt (stray : Eval Signal) (hh : host.Handles Value.Shaped) (n : Nat) :
    GuardedAt stray host n := by
  induction n with
  | zero =>
    constructor
    · intro e _
      rw [Guarded.evaluate, Eval.evaluate]
      exact .exhausted
    · intro ctx s _
      rw [Guarded.execute, Eval.execute]
      exact .exhausted
  | succ n ih => exact ⟨ih.evaluate_succ hh, ih.execute_succ⟩

theorem runProgram_same (stray : Eval Signal) (hh : host.Handles Value.Shaped) (bound : Nat)
    {program : List Stmt} (hw : Stmt.AllWellFormed .top program) :
    (Guarded.runProgram stray host bound program).SameOn (runProgram host bound program)
      fun _ => True := by
  have hall : (doAll (fun s => guard stray Signal.isNext (Guarded.execute stray host bound s))
      program).SameOn (doAll (Eval.execute host bound) program) fun _ => True := by
    refine doAll_same fun s hs => ?_
    have htop := Stmt.wellFormed_of_mem hw s hs
    refine ((guardedAt stray hh bound).execute .top s htop).guard stray fun m signal m' hend => ?_
    exact (execute_fits host bound .top s htop m signal m' hend).isNext
  exact hall.bind fun _ _ => .of_keeps (flush_holds trivial)

end Eval

/-! ## §5. Programs that have been accepted. -/

/-- A program that has been read and expanded without a fault. -/
def Accepted (program : List Stmt) : Prop :=
  ∃ tokens, (prepare (parse tokens)).faults = [] ∧ program = (prepare (parse tokens)).statements

theorem Accepted.wellFormed {program : List Stmt} (h : Accepted program) :
    Stmt.AllWellFormed .top program := by
  obtain ⟨tokens, hf, rfl⟩ := h
  exact (prepare_sound (parse_wellFormed tokens) hf).1

/-- Between runs of accepted programs, all functions in the frames have
well-formed bodies. -/
theorem Machine.Idle.holds_shaped {host : Host} (hh : host.Handles Value.Shaped) {m : Machine}
    (h : m.Idle host Accepted) : m.Holds Value.Shaped := by
  induction h with
  | start output =>
    refine Scopes.all_empty.push (Bindings.all_ofLists _ fun v hv => ?_)
    -- The first frame binds functions of the host only.
    obtain ⟨i, hi, hvalue⟩ := List.mem_mapIdx.1 hv
    rw [← hvalue]
    trivial
  | given _ native ih => exact Scopes.All.define ih 0 native.name trivial
  | @ran m m' _ bound program hp hm' ih =>
    have hend := (Eval.runProgram_same .exhausted hh bound hp.wellFormed).keeps m ih
    cases hrun : Eval.runProgram host bound program m with
    | done _ m'' =>
      rw [hrun] at hend hm'
      exact Option.some.inj hm' ▸ hend.1
    | failed failure m'' =>
      rw [hrun] at hend hm'
      exact Option.some.inj hm' ▸ hend.1
    | exhausted =>
      rw [hrun] at hm'
      cases hm'

/-- **Signals are confined.** Take any machine between runs of accepted programs,
on a host whose functions make no functions of their own, and run an accepted
program on it.  Then

  • a statement of the program ends with `next` or not at all, on any machine;
  • the body of every function in the frames ends with a `return` or at its end,
    on any machine;
  • no loop ends with a `break` or a `continue`;
  • to do anything else at any other signal, at the program, at a function body or
    at a loop, makes no difference to the run, so that there is none;
  • a call of any function gives what the log of its body shows: the value of the
    first `return` of the body, behind which nothing happens in it, or nil. -/
theorem signals_are_confined {host : Host} (hh : host.Handles Value.Shaped) {m : Machine}
    (hm : m.Idle host Accepted) {program : List Stmt} (hp : Accepted program) (bound : Nat) :
    (∀ s ∈ program, (Eval.execute host bound s).Gives (· = .next)) ∧
      (∀ frame ∈ m.scopes.frames, ∀ name c,
        Bindings.get? name frame.bindings = some (.function c) →
        (Eval.sequence (Eval.execute host bound) c.body).Gives fun signal =>
          signal = .next ∨ ∃ value, signal = .give value) ∧
      (∀ condition body increment,
        (Eval.execute host bound (.loop condition body increment)).Gives fun signal =>
          signal = .next ∨ ∃ value, signal = .give value) ∧
      (∀ stray, Guarded.runProgram stray host bound program m =
        Eval.runProgram host bound program m) ∧
      ∀ c arguments m, (Logged.enter host bound c arguments m).2 =
          Eval.enter (Eval.execute host bound) c arguments m ∧
        Logged.OnceCalled (Logged.enter host bound c arguments m) := by
  have hholds := hm.holds_shaped hh
  refine ⟨?_, ?_, ?_, ?_, ?_⟩
  · intro s hs m signal m' hend
    have htop := Stmt.wellFormed_of_mem hp.wellFormed s hs
    exact Signal.eq_of_isNext (Eval.execute_fits host bound .top s htop m signal m' hend).isNext
  · intro frame hframe name c hc m signal m' hend
    have hbody : (Value.function c).Shaped := (hholds frame hframe).get? hc
    exact Signal.eq_of_endsBody (Eval.sequence_endsBody host bound hbody m signal m' hend)
  · intro condition body increment m signal m' hend
    cases bound with
    | zero =>
      rw [Eval.execute] at hend
      cases hend
    | succ n =>
      rw [Eval.execute] at hend
      exact Signal.eq_of_endsBody (Eval.rounds_endsBody _ _ _ n m signal m' hend)
  · intro stray
    exact (Eval.runProgram_same stray hh bound hp.wellFormed).same m hholds
  · intro c arguments m
    exact ⟨Logged.enter_does host bound c arguments m,
      Logged.enter_once host bound c arguments m⟩

/-- A symbol as a token of the first line. -/
def Symbol.token (s : Symbol) : Token := ⟨.symbol s, s.text, 1⟩

/-- A reserved word as a token of the first line. -/
def Keyword.token (k : Keyword) : Token := ⟨.keyword k, k.text, 1⟩

/-- A name as a token of the first line. -/
def Token.named (name : String) : Token := ⟨.identifier, name, 1⟩

/-- `fun f(n) { while (true) { if (n) return n; break; } }`. -/
def searching : List Token :=
  [Keyword.funWord.token, .named "f", Symbol.leftParen.token, .named "n",
    Symbol.rightParen.token, Symbol.leftBrace.token,
    Keyword.whileWord.token, Symbol.leftParen.token, Keyword.trueWord.token,
    Symbol.rightParen.token, Symbol.leftBrace.token,
    Keyword.ifWord.token, Symbol.leftParen.token, .named "n", Symbol.rightParen.token,
    Keyword.returnWord.token, .named "n", Symbol.semicolon.token,
    Keyword.breakWord.token, Symbol.semicolon.token,
    Symbol.rightBrace.token, Symbol.rightBrace.token]

/-- `apply(f, true);`. -/
def callingBack : List Token :=
  [.named "apply", Symbol.leftParen.token, .named "f", Symbol.comma.token,
    Keyword.trueWord.token, Symbol.rightParen.token, Symbol.semicolon.token]

/-- A host function calls a function of an earlier program, which leaves its loop
by a `return`. -/
theorem signals_are_confined_calling_back :
    let host := Host.toolbox fun _ => 0
    let later := (prepare (parse callingBack)).statements
    ∃ m : Machine, (Eval.runProgram host 16 (prepare (parse searching)).statements
        (.start host .unlimited)).machine? = some m ∧
      (Eval.runProgram host 16 later m).machine?.isSome = true ∧
      ∀ stray, Guarded.runProgram stray host 16 later m = Eval.runProgram host 16 later m := by
  intro host later
  have hends : ((Eval.runProgram host 16 (prepare (parse searching)).statements
      (.start host .unlimited)).machine?.map fun m =>
        (Eval.runProgram host 16 later m).machine?.isSome) = some true := by decide +kernel
  obtain ⟨m, hm, hlater⟩ := Option.map_eq_some_iff.1 hends
  have hhost : host.Handles Value.Shaped := Host.toolbox_handles Value.shaped_of_not_callable _
  have hfirst : Accepted (prepare (parse searching)).statements :=
    ⟨searching, by decide +kernel, rfl⟩
  have hsecond : Accepted later := ⟨callingBack, by decide +kernel, rfl⟩
  have hidle : m.Idle host Accepted := .ran (.start .unlimited) 16 hfirst hm
  obtain ⟨-, -, -, hguarded, -⟩ := signals_are_confined hhost hidle hsecond 16
  exact ⟨m, hm, hlater, hguarded⟩

end Lox
