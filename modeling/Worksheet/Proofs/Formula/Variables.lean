import Worksheet.Formula.Basic

set_option autoImplicit false

/-!
# The variables of a formula

The variables of a formula are those among its tokens, and its value depends on nothing else. Evaluation
looks all of them up: it comes to a number only if each one has a value, and calls none undefined that
has one.
-/
namespace Worksheet.Formula

theorem mem_vars (f : Formula) (v : String) : v ∈ f.vars ↔ .var v ∈ f.tokens := by
  rw [vars, List.mem_eraseDups, List.mem_filterMap]
  constructor
  · rintro ⟨t, ht, hv⟩
    cases t with
    | var name => exact Option.some.inj hv ▸ ht
    | lparen | rparen | op _ | num _ => nomatch hv
  · exact fun h => ⟨.var v, h, rfl⟩

theorem advance_congr {l l' : String → Option Float} (s : Stacks) (t : Token)
    (h : ∀ v, t = .var v → l v = l' v) :
    advance reduce (resolve l) s t = advance reduce (resolve l') s t := by
  cases t with
  | var name => simp only [advance, resolve, h name rfl]
  | lparen | rparen | op _ | num _ => rfl

theorem foldlM_advance_congr {l l' : String → Option Float} (s : Stacks) (ts : List Token)
    (h : ∀ v, .var v ∈ ts → l v = l' v) :
    ts.foldlM (advance reduce (resolve l)) s = ts.foldlM (advance reduce (resolve l')) s := by
  induction ts generalizing s with
  | nil => rfl
  | cons t ts ih =>
    rw [List.foldlM_cons, List.foldlM_cons, advance_congr s t fun v hv => h v (by simp [hv])]
    congr 1
    funext s
    exact ih s fun v hv => h v (List.mem_cons_of_mem t hv)

theorem value_congr (f : Formula) {l l' : String → Option Float} (h : ∀ v ∈ f.vars, l v = l' v) :
    f.value l = f.value l' := by
  unfold value evaluate run
  rw [foldlM_advance_congr _ f.tokens fun v hv => h v ((mem_vars f v).2 hv)]

/-- What a result tells about the variables among the tokens that were evaluated for it. -/
inductive Accounts (lookup : String → Option Float) (ts : List Token) {α : Type} :
    Except EvalError α → Prop where
  | value {a : α} (h : ∀ v, .var v ∈ ts → (lookup v).isSome) : Accounts lookup ts (.ok a)
  | undefined {v : String} (hv : .var v ∈ ts) (h : lookup v = none) :
      Accounts lookup ts (.error (.undefinedVariable v))
  | division : Accounts lookup ts (.error .divisionByZero)

section accounts

variable {lookup : String → Option Float}

theorem Accounts.ok_nil {α : Type} (a : α) : Accounts lookup [] (.ok a) :=
  .value fun _ hv => nomatch hv

theorem Accounts.skip {α : Type} {ts : List Token} {x : Except EvalError α} {t : Token}
    (h : Accounts lookup ts x) (ht : ∀ v, t ≠ .var v) : Accounts lookup (t :: ts) x := by
  cases h with
  | value h => exact .value fun v hv => h v ((List.mem_cons.1 hv).resolve_left (ht v).symm)
  | undefined hv h => exact .undefined (List.mem_cons_of_mem t hv) h
  | division => exact .division

theorem Accounts.bind {α β : Type} {ts us : List Token} {x : Except EvalError α}
    {f : α → Except EvalError β} (hx : Accounts lookup ts x) (hf : ∀ a, Accounts lookup us (f a)) :
    Accounts lookup (ts ++ us) (x >>= f) := by
  cases hx with
  | undefined hv h => exact .undefined (List.mem_append_left us hv) h
  | division => exact .division
  | @value a h =>
    change Accounts lookup (ts ++ us) (f a)
    generalize hy : f a = y
    cases hy ▸ hf a with
    | value h' =>
      refine .value fun v hv => ?_
      rcases List.mem_append.1 hv with hv | hv
      · exact h v hv
      · exact h' v hv
    | undefined hv h' => exact .undefined (List.mem_append_right ts hv) h'
    | division => exact .division

theorem reduce_accounts (o : Op) (operands : List Float) :
    Accounts lookup [] (reduce o operands) := by
  unfold reduce
  cases o with
  | add | sub | mul => exact .ok_nil _
  | div =>
    rw [Op.apply]
    split
    · exact .division
    · exact .ok_nil _

theorem settle_accounts (precedence : Nat) (operands : List Float) (pending : List Pending) :
    Accounts lookup [] (settle reduce precedence operands pending) := by
  induction pending generalizing operands with
  | nil => exact .ok_nil _
  | cons p pending ih =>
    cases p with
    | paren => exact .ok_nil _
    | apply o =>
      rw [settle]
      split
      · exact .ok_nil _
      · exact (reduce_accounts o operands).bind ih

theorem closeParen_accounts (operands : List Float) (pending : List Pending) :
    Accounts lookup [] (closeParen reduce operands pending) := by
  induction pending generalizing operands with
  | nil => exact .ok_nil _
  | cons p pending ih =>
    cases p with
    | paren => exact .ok_nil _
    | apply o => exact (reduce_accounts o operands).bind ih

theorem drain_accounts (operands : List Float) (pending : List Pending) :
    Accounts lookup [] (drain reduce operands pending) := by
  induction pending generalizing operands with
  | nil => exact .ok_nil _
  | cons p pending ih =>
    cases p with
    | paren => exact ih operands
    | apply o => exact (reduce_accounts o operands).bind ih

theorem resolve_accounts (name : String) : Accounts lookup [.var name] (resolve lookup name) := by
  unfold resolve
  split
  · rename_i x hx
    refine .value fun v hv => ?_
    cases List.mem_singleton.1 hv
    rw [hx]
    rfl
  · rename_i hnone
    exact .undefined List.mem_cons_self hnone

theorem advance_accounts (s : Stacks) (t : Token) :
    Accounts lookup [t] (advance reduce (resolve lookup) s t) := by
  cases t with
  | num x => exact (Accounts.ok_nil _).skip nofun
  | var name => exact (resolve_accounts name).bind fun _ => .ok_nil _
  | lparen => exact (Accounts.ok_nil _).skip nofun
  | rparen => exact (closeParen_accounts _ _).skip nofun
  | op o => exact ((settle_accounts _ _ _).bind fun _ => .ok_nil _).skip nofun

theorem foldlM_accounts (s : Stacks) (ts : List Token) :
    Accounts lookup ts (ts.foldlM (advance reduce (resolve lookup)) s) := by
  induction ts generalizing s with
  | nil => exact .ok_nil s
  | cons t ts ih => exact (advance_accounts s t).bind ih

theorem evaluate_var (lookup : String → Option Float) (name : String) :
    evaluate lookup [.var name] = resolve lookup name := by
  unfold evaluate run
  rw [List.foldlM_cons, advance]
  cases resolve lookup name <;> rfl

/-- No step of an evaluation goes on without the value of a variable. -/
theorem evaluate_accounts (lookup : String → Option Float) (ts : List Token) :
    Accounts lookup ts (evaluate lookup ts) := by
  have hrun : Accounts lookup (ts ++ []) (run reduce (resolve lookup) ts) :=
    (foldlM_accounts ⟨[], []⟩ ts).bind fun s => drain_accounts s.operands s.pending
  have h : Accounts lookup (ts ++ [] ++ []) (evaluate lookup ts) :=
    hrun.bind fun operands => .ok_nil (operands.headD 0)
  rwa [List.append_nil, List.append_nil] at h

end accounts

end Worksheet.Formula
