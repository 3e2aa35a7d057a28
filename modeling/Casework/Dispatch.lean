import Casework.Switch

/-!
# Dispatching a whole program

Every chain of conditionals in a program is replaced by its switch, from the
inside out: a chain nested in a branch is a switch already when the chain around
it is turned into one.  Comments before a conditional lead its switch, and all
other statements stay as they are.

## Main definitions

* `Stmt.dispatch` — a statement with every conditional in it turned into a
  switch.
* `Program.dispatch` — the same for a program.

## Main results

* `Stmt.value_dispatch_conditional` and its like — one equation for each kind of
  statement.
* `Stmt.value_dispatchList` — a list is done statement by statement.
-/

namespace Casework

namespace Stmt

mutual

/-- The statement with every conditional in it turned into a switch. -/
def dispatch (options : SwitchOptions) : Stmt → Traced Stmt
  | leaf k l => pure (leaf k l)
  | block k body => do
    let body ← dispatchList options body
    return block k body
  | «while» k cond body => do
    let body ← dispatchList options body
    return «while» k cond body
  | conditional k cond body elseifs otherwise => do
    let body ← dispatchList options body
    let elseifs ← dispatchClauses options elseifs
    let otherwise ← dispatchOtherwise options otherwise
    let chain := Chain.of cond body elseifs otherwise
    let switch ← chain.toSwitch options
    .report (.dispatched switch.subject chain.branches.length chain.otherwise.isSome)
    return switch.stmt k
  | switch k subject cases => do
    let cases ← dispatchCases options cases
    return switch k subject cases

/-- Each statement with every conditional in it turned into a switch. -/
def dispatchList (options : SwitchOptions) : List Stmt → Traced (List Stmt)
  | [] => pure []
  | s :: ss => do
    let s ← s.dispatch options
    let ss ← dispatchList options ss
    return s :: ss

/-- The clauses with every conditional in their bodies turned into a switch. -/
def dispatchClauses (options : SwitchOptions) :
    List (Clause Stmt) → Traced (List (Clause Stmt))
  | [] => pure []
  | ⟨k, cond, body⟩ :: clauses => do
    let body ← dispatchList options body
    let clauses ← dispatchClauses options clauses
    return ⟨k, cond, body⟩ :: clauses

/-- The `else` clause with every conditional in its body turned into a switch. -/
def dispatchOtherwise (options : SwitchOptions) :
    Option (Otherwise Stmt) → Traced (Option (Otherwise Stmt))
  | none => pure none
  | some ⟨k, body⟩ => do
    let body ← dispatchList options body
    return some ⟨k, body⟩

/-- The cases with every conditional in their bodies turned into a switch. -/
def dispatchCases (options : SwitchOptions) : List (Case Stmt) → Traced (List (Case Stmt))
  | [] => pure []
  | ⟨k, key, body⟩ :: cases => do
    let body ← dispatchList options body
    let cases ← dispatchCases options cases
    return ⟨k, key, body⟩ :: cases

end

/-! ### What becomes of each kind of statement -/

variable (options : SwitchOptions) (k : List Comment)

@[simp] theorem value_dispatch_leaf (l : Leaf) :
    ((leaf k l).dispatch options).value = leaf k l := rfl

@[simp] theorem value_dispatch_block (body : List Stmt) :
    ((block k body).dispatch options).value = block k (dispatchList options body).value := rfl

@[simp] theorem value_dispatch_while (cond : Expr) (body : List Stmt) :
    ((«while» k cond body).dispatch options).value =
      «while» k cond (dispatchList options body).value := rfl

@[simp] theorem value_dispatch_switch (subject : Expr) (cases : List (Case Stmt)) :
    ((switch k subject cases).dispatch options).value =
      switch k subject (dispatchCases options cases).value := rfl

/-- A conditional becomes the switch of its chain, once the bodies are done. -/
theorem value_dispatch_conditional (cond : Expr) (body : List Stmt)
    (elseifs : List (Clause Stmt)) (otherwise : Option (Otherwise Stmt)) :
    ((conditional k cond body elseifs otherwise).dispatch options).value =
      ((Chain.of cond (dispatchList options body).value (dispatchClauses options elseifs).value
        (dispatchOtherwise options otherwise).value).toSwitch options).value.stmt k := rfl

/-- A list of statements is done statement by statement. -/
@[simp] theorem value_dispatchList (stmts : List Stmt) :
    (dispatchList options stmts).value = stmts.map fun s => (s.dispatch options).value := by
  induction stmts with
  | nil => rfl
  | cons s ss ih => simp [dispatchList, ih]

end Stmt

/-- The program with every conditional in it turned into a switch. -/
def Program.dispatch (options : SwitchOptions) (p : Program) : Traced Program := do
  let stmts ← Stmt.dispatchList options p.stmts
  return { p with stmts }

end Casework
