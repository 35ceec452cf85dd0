import Worksheet.Formula.Evaluation
import Worksheet.Proofs.Formula.Tree

set_option autoImplicit false

/-!
# Evaluation with two stacks computes parse trees

A tree is evaluated from the left: first its left part, then its right part, then its operator. The two
stacks give the same result for its tokens, and they never run short of operands.
-/
namespace Worksheet.Formula

def Tree.eval (lookup : String → Option Float) : {r : Rank} → Tree r → Except EvalError Float
  | _, num x => .ok x
  | _, var name =>
    match lookup name with
    | some x => .ok x
    | none => .error (.undefinedVariable name)
  | _, parens e => e.eval lookup
  | _, operand f => f.eval lookup
  | _, product t o _ f => do
    let left ← t.eval lookup
    let right ← f.eval lookup
    o.apply left right
  | _, term t => t.eval lookup
  | _, sum e o _ t => do
    let left ← e.eval lookup
    let right ← t.eval lookup
    o.apply left right

/-- How an evaluation stops that has no value for a missing operand. -/
inductive Stop where
  | error (e : EvalError)
  | missing

/-- As for the two stacks, but stopping where an operand is missing. -/
def strictReduce (o : Op) : List Float → Except Stop (List Float)
  | right :: left :: operands => ((o.apply left right).mapError .error).map (· :: operands)
  | _ => .error .missing

def strictResolve (lookup : String → Option Float) (name : String) : Except Stop Float :=
  (resolve lookup name).mapError .error

section runs

variable {ε : Type} {fail : EvalError → ε} {combine : Op → List Float → Except ε (List Float)}
  {value : String → Except ε Float} {lookup : String → Option Float}

/-- Where the operands of an operator are there, it is applied to them, and so is the lookup to a name. -/
structure Applies (fail : EvalError → ε) (combine : Op → List Float → Except ε (List Float))
    (value : String → Except ε Float) (lookup : String → Option Float) : Prop where
  combine_eq : ∀ o right left xs,
    combine o (right :: left :: xs) = ((o.apply left right).mapError fail).map (· :: xs)
  value_eq : ∀ name, value name = (resolve lookup name).mapError fail

theorem reduce_applies (lookup : String → Option Float) :
    Applies id reduce (resolve lookup) lookup := by
  refine ⟨fun o right left xs => ?_, fun name => ?_⟩
  · unfold reduce
    dsimp only [List.headD_cons, List.tail_cons]
    cases o.apply left right with
    | ok x => rfl
    | error e => rfl
  · cases resolve lookup name with
    | ok x => rfl
    | error e => rfl

theorem strictReduce_applies (lookup : String → Option Float) :
    Applies .error strictReduce (strictResolve lookup) lookup :=
  ⟨fun _ _ _ _ => rfl, fun _ => rfl⟩

/-- No operator is pending on top that binds as tightly as `p`. -/
def Loose (p : Nat) (ps : List Pending) : Prop := ∀ o qs, ps = .apply o :: qs → o.precedence < p

variable (fail combine value) in
/-- Running the tokens from any stacks and then applying what binds as tightly as `p` leaves the stacks
with the result on top, or stops with its error. -/
def Runs (p : Nat) (ts : List Token) (r : Except EvalError Float) : Prop :=
  ∀ xs ps, Loose p ps →
    (do let s ← ts.foldlM (advance combine value) ⟨xs, ps⟩; settle combine p s.operands s.pending) =
      (r.mapError fail).map fun x => ⟨x :: xs, ps⟩

theorem settle_loose {p : Nat} {ps : List Pending} (h : Loose p ps) (xs : List Float) :
    settle combine p xs ps = .ok ⟨xs, ps⟩ := by
  match ps with
  | [] | .paren :: _ => rfl
  | .apply o :: ps =>
    unfold settle
    rw [if_pos (h o ps rfl)]

theorem Loose.mono {p q : Nat} {ps : List Pending} (h : Loose p ps) (hpq : p ≤ q) : Loose q ps :=
  fun o qs hps => Nat.lt_of_lt_of_le (h o qs hps) hpq

theorem loose_apply {p : Nat} {o : Op} (h : o.precedence < p) (ps : List Pending) :
    Loose p (.apply o :: ps) := by
  rintro o' qs hps
  obtain ⟨rfl, -⟩ : o = o' ∧ ps = qs := by simpa using hps
  exact h

theorem settle_settle {p q : Nat} (hpq : p ≤ q) (xs : List Float) (ps : List Pending) :
    (do let s ← settle combine q xs ps; settle combine p s.operands s.pending) =
      settle combine p xs ps := by
  induction ps generalizing xs with
  | nil => rfl
  | cons o ps ih =>
    cases o with
    | paren => rfl
    | apply o =>
      by_cases ho : o.precedence < q
      · rw [settle_loose (loose_apply ho ps)]
        rfl
      · have hop : ¬o.precedence < p := by omega
        simp only [settle, ho, hop, ↓reduceIte, bind_assoc, ih]

/-- What applies all pending operators anyway may find some of them applied before. -/
theorem settle_before {α : Type} {finish : List Float → List Pending → Except ε α}
    (h : ∀ o xs ps, finish xs (.apply o :: ps) = combine o xs >>= fun ys => finish ys ps)
    (xs : List Float) (ps : List Pending) :
    (do let s ← settle combine 1 xs ps; finish s.operands s.pending) = finish xs ps := by
  induction ps generalizing xs with
  | nil => rfl
  | cons o ps ih =>
    cases o with
    | paren => rfl
    | apply o =>
      have ho : ¬o.precedence < 1 := by cases o <;> decide
      simp only [settle, ho, ↓reduceIte, bind_assoc, ih, h]

theorem closeParen_settle (xs : List Float) (ps : List Pending) :
    (do let s ← settle combine 1 xs ps; closeParen combine s.operands s.pending) =
      closeParen combine xs ps :=
  settle_before (fun _ _ _ => rfl) xs ps

theorem settle_first {p q : Nat} (hpq : p ≤ q) (m : Except ε Stacks) :
    (m >>= fun s => settle combine p s.operands s.pending) =
      (m >>= fun s => settle combine q s.operands s.pending) >>= fun s =>
      settle combine p s.operands s.pending := by
  rw [bind_assoc]
  simp only [settle_settle hpq]

theorem Runs.lower {p q : Nat} {ts : List Token} {r : Except EvalError Float}
    (h : Runs fail combine value q ts r) (hpq : p ≤ q) : Runs fail combine value p ts r := by
  intro xs ps hps
  rw [settle_first hpq, h xs ps (hps.mono hpq)]
  cases r with
  | error e => rfl
  | ok x => exact settle_loose hps _

theorem foldlM_op (o : Op) (ts us : List Token) (s : Stacks) :
    (ts ++ .op o :: us).foldlM (advance combine value) s =
      (ts.foldlM (advance combine value) s >>= fun s =>
        settle combine o.precedence s.operands s.pending) >>= fun s =>
      us.foldlM (advance combine value) ⟨s.operands, .apply o :: s.pending⟩ := by
  rw [List.foldlM_append, bind_assoc]
  congr 1
  funext s
  rw [List.foldlM_cons, advance]
  simp only [bind_assoc, pure_bind]

theorem settle_apply (happly : Applies fail combine value lookup) {p : Nat} {o : Op}
    (ho : o.precedence = p) {ps : List Pending} (hps : Loose p ps) (left right : Float)
    (xs : List Float) : settle combine p (right :: left :: xs) (.apply o :: ps) =
      ((o.apply left right).mapError fail).map fun x => ⟨x :: xs, ps⟩ := by
  have hnot : ¬o.precedence < p := by omega
  rw [settle, if_neg hnot, happly.combine_eq]
  cases o.apply left right with
  | error e => rfl
  | ok x => exact settle_loose hps _

theorem Runs.binary (happly : Applies fail combine value lookup) {p : Nat} {ts us : List Token}
    {r r' : Except EvalError Float} {o : Op} (ho : o.precedence = p)
    (h : Runs fail combine value p ts r) (h' : Runs fail combine value (p + 1) us r') :
    Runs fail combine value p (ts ++ .op o :: us) (do
      let left ← r
      let right ← r'
      o.apply left right) := by
  intro xs ps hps
  rw [foldlM_op, ho, h xs ps hps]
  cases r with
  | error e => rfl
  | ok left =>
    have hloose : Loose (p + 1) (.apply o :: ps) := loose_apply (by omega) ps
    change (us.foldlM (advance combine value) ⟨left :: xs, .apply o :: ps⟩ >>= fun s =>
      settle combine p s.operands s.pending) = _
    rw [settle_first (Nat.le_succ p), h' (left :: xs) _ hloose]
    cases r' with
    | error e => rfl
    | ok right => exact settle_apply happly ho hps left right xs

theorem Runs.parens {ts : List Token} {r : Except EvalError Float}
    (h : Runs fail combine value 1 ts r) :
    Runs fail combine value 3 (.lparen :: (ts ++ [.rparen])) r := by
  intro xs ps hps
  have hrun := h xs (.paren :: ps) (by intro o qs hqs; nomatch hqs)
  have hclose : (.lparen :: (ts ++ [.rparen])).foldlM (advance combine value) ⟨xs, ps⟩ =
      (ts.foldlM (advance combine value) ⟨xs, .paren :: ps⟩ >>= fun s =>
        settle combine 1 s.operands s.pending) >>= fun s =>
      closeParen combine s.operands s.pending := by
    change (ts ++ [Token.rparen]).foldlM (advance combine value) ⟨xs, .paren :: ps⟩ = _
    rw [List.foldlM_append, bind_assoc]
    simp only [closeParen_settle, List.foldlM_cons, List.foldlM_nil, advance, bind_pure]
  rw [hclose, hrun]
  cases r with
  | error e => rfl
  | ok x => exact settle_loose hps _

/-- How tightly the operators outside a tree may bind at least. -/
def Rank.level : Rank → Nat
  | .sum => 1
  | .product => 2
  | .operand => 3

theorem Tree.runs (happly : Applies fail combine value lookup) {r : Rank} (e : Tree r) :
    Runs fail combine value r.level e.tokens (e.eval lookup) := by
  induction e with
  | num x =>
    intro xs ps hps
    exact settle_loose hps _
  | var name =>
    intro xs ps hps
    unfold Tree.tokens Tree.eval
    rw [List.foldlM_cons, advance, happly.value_eq, resolve]
    cases lookup name with
    | none => rfl
    | some x => exact settle_loose hps _
  | parens e ih => exact ih.parens
  | operand f ih => exact ih.lower (by decide)
  | product t o h f iht ihf =>
    have ho : o.precedence = 2 := by cases o <;> first | rfl | contradiction
    exact Runs.binary happly ho iht ihf
  | term t ih => exact ih.lower (by decide)
  | sum e o h t ihe iht =>
    have ho : o.precedence = 1 := by cases o <;> first | rfl | contradiction
    exact Runs.binary happly ho ihe iht

theorem drain_settle (xs : List Float) (ps : List Pending) :
    (do let s ← settle combine 1 xs ps; drain combine s.operands s.pending) =
      drain combine xs ps :=
  settle_before (fun _ _ _ => rfl) xs ps

/-- The stacks leave the value of a tree and nothing else. -/
theorem Tree.run_tokens (happly : Applies fail combine value lookup) (e : Tree .sum) :
    run combine value e.tokens = ((e.eval lookup).mapError fail).map fun x => [x] := by
  have hrun := e.runs happly [] [] (by intro o qs hqs; nomatch hqs)
  rw [Rank.level] at hrun
  calc
    _ = (e.tokens.foldlM (advance combine value) ⟨[], []⟩ >>= fun s =>
          settle combine 1 s.operands s.pending) >>= fun s =>
        drain combine s.operands s.pending := by
      rw [bind_assoc]
      simp only [drain_settle]
      rfl
    _ = _ := by
      rw [hrun]
      cases e.eval lookup <;> rfl

end runs

/-- Accepted tokens have one parse tree. Its value, or its first error, is the result of the two stacks.
It is all that they leave, also if they stop wherever an operand is missing. -/
theorem evaluate_checked {ts : List Token} (h : check ts = .ok ())
    (lookup : String → Option Float) :
    ∃ e : Tree .sum, e.tokens = ts ∧ (∀ e' : Tree .sum, e'.tokens = ts → e' = e) ∧
      evaluate lookup ts = e.eval lookup ∧
      run strictReduce (strictResolve lookup) ts =
        ((e.eval lookup).mapError .error).map fun x => [x] := by
  obtain ⟨e, rfl⟩ := Tree.exists_tokens_of_check h
  refine ⟨e, rfl, fun e' he => Tree.tokens_injective he, ?_,
    e.run_tokens (strictReduce_applies lookup)⟩
  unfold evaluate
  rw [e.run_tokens (reduce_applies lookup)]
  cases e.eval lookup with
  | ok x => rfl
  | error e => rfl

def quotientTokens : List Token :=
  [.lparen, .var "x", .op .sub, .num 1, .rparen, .op .div, .var "y", .op .mul, .num 2]

theorem evaluate_checked_quotient :
    check quotientTokens = .ok () ∧
      ∃ e : Tree .sum, e.tokens = quotientTokens ∧
        (∀ e' : Tree .sum, e'.tokens = quotientTokens → e' = e) ∧
        evaluate (fun _ => some 3) quotientTokens = e.eval (fun _ => some 3) ∧
        run strictReduce (strictResolve fun _ => some 3) quotientTokens =
          ((e.eval fun _ => some 3).mapError .error).map fun x => [x] :=
  ⟨rfl, evaluate_checked rfl _⟩

end Worksheet.Formula
