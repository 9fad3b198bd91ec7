import Mathlib.Data.List.Basic

/-!
# Results of stateful programs

What is known of the result of a program, whatever the state it starts from, when it does not end
with an error. For a loop, an invariant that every turn keeps and a measure that every turn makes
smaller give its result.
-/

namespace StatefulResults

open List

variable {ε σ α β : Type}

/-- Each result of the program is as said. -/
def Returns (prog : EStateM ε σ α) (expected : α → Prop) : Prop :=
  ∀ ⦃before res after⦄, prog before = .ok res after → expected res

theorem returns_pure {val : α} {expected : α → Prop} (hval : expected val) :
    Returns (pure val : EStateM ε σ α) expected := by
  intro before res after hres
  cases hres
  exact hval

theorem returns_throw (error : ε) (expected : α → Prop) :
    Returns (throw error : EStateM ε σ α) expected := by
  intro before res after hres
  cases hres

variable {prog : EStateM ε σ α} {rest : α → EStateM ε σ β}

theorem bind_ok {before after : σ} {res : β} (h : (prog >>= rest) before = .ok res after) :
    ∃ val middle, prog before = .ok val middle ∧ rest val middle = .ok res after := by
  simp only [bind, EStateM.bind] at h
  cases hval : prog before with
  | ok val middle =>
    rw [hval] at h
    exact ⟨val, middle, rfl, h⟩
  | error error middle =>
    rw [hval] at h
    cases h

/-- A program under a name of its own, to look into it while it runs. -/
theorem exists_program {before : σ} {res : EStateM.Result ε σ α} (h : prog before = res) :
    ∃ named, prog = named ∧ named before = res :=
  ⟨prog, rfl, h⟩

theorem Returns.bind {known : α → Prop} {expected : β → Prop} (hprog : Returns prog known)
    (hrest : ∀ val, known val → Returns (rest val) expected) :
    Returns (prog >>= rest) expected := by
  intro before res after h
  obtain ⟨val, middle, hval, hres⟩ := bind_ok h
  exact hrest val (hprog hval) hres

theorem returns_after {expected : β → Prop} (hrest : ∀ val, Returns (rest val) expected) :
    Returns (prog >>= rest) expected := by
  intro before res after h
  obtain ⟨val, middle, _, hres⟩ := bind_ok h
  exact hrest val hres

/-- An invariant of the accumulated value, over the items that have been passed. -/
theorem returns_foldlM {step : β → α → EStateM ε σ β} (known : List α → β → Prop)
    (hstep : ∀ passed item val, known passed val →
      Returns (step val item) (known (passed ++ [item])))
    (items passed : List α) (val : β) (hval : known passed val) :
    Returns (items.foldlM step val) (known (passed ++ items)) := by
  induction items generalizing passed val with
  | nil =>
    rw [append_nil]
    exact returns_pure hval
  | cons item rest ih =>
    rw [foldlM_cons]
    refine (hstep passed item val hval).bind fun next hnext => ?_
    have hrest := ih (passed ++ [item]) next hnext
    rwa [append_assoc, singleton_append] at hrest

/-- A loop over a list whose turns only carry the state forward: what a turn sees to for its item
stays so in every later state. -/
theorem forM_ok {R : σ → σ → Prop} (hrefl : ∀ state, R state state)
    (htrans : ∀ {first second third}, R first second → R second third → R first third)
    (Q : α → σ → Prop)
    (hkeep : ∀ {item first second}, R first second → Q item first → Q item second)
    {step : α → EStateM ε σ Unit} {items : List α}
    (hstep : ∀ item ∈ items, ∀ {before after}, step item before = .ok () after →
      R before after ∧ Q item after)
    {before after : σ} (hrun : items.forM step before = .ok () after) :
    R before after ∧ ∀ item ∈ items, Q item after := by
  induction items generalizing before with
  | nil =>
    cases hrun
    exact ⟨hrefl _, by simp⟩
  | cons item rest ih =>
    obtain ⟨_, middle, hitem, hrest⟩ := bind_ok hrun
    obtain ⟨hfst, hseen⟩ := hstep item mem_cons_self hitem
    obtain ⟨hlater, hothers⟩ :=
      ih (fun other hother => hstep other (mem_cons_of_mem _ hother)) hrest
    refine ⟨htrans hfst hlater, ?_⟩
    intro other hother
    rcases mem_cons.mp hother with rfl | hother
    · exact hkeep hlater hseen
    · exact hothers other hother

/-! ## Runs -/

section
variable {first : EStateM ε σ α} {rest : α → EStateM ε σ β} {state state' : σ}

theorem run_bind {val : α} (hfst : first state = .ok val state') :
    (first >>= rest) state = rest val state' := by
  change EStateM.bind first rest state = _
  rw [EStateM.bind, hfst]

theorem run_bind_error {stop : ε} (hfst : first state = .error stop state') :
    (first >>= rest) state = .error stop state' := by
  change EStateM.bind first rest state = _
  rw [EStateM.bind, hfst]

end

/-! ## Loops -/

/-- `while` with a value that its turns carry. The number of turns is bounded. -/
def whileLoop (unending : ε) (cond : α → EStateM ε σ Bool) (body : α → EStateM ε σ α) :
    Nat → α → EStateM ε σ α
  | 0, _ => throw unending
  | turns + 1, val => do
    if ← cond val then
      let next ← body val
      whileLoop unending cond body turns next
    else pure val

section
variable {unending : ε} {cond : α → EStateM ε σ Bool} {body : α → EStateM ε σ α}
  (P goes : α → σ → Prop) [∀ val state, Decidable (goes val state)] (measure : α → σ → Nat)
  (hcond : ∀ val state, P val state → cond val state = .ok (decide (goes val state)) state)
  (hstep : ∀ val state, P val state → goes val state →
    ∃ next state', body val state = .ok next state' ∧ P next state' ∧
      measure next state' < measure val state)
include hcond hstep

/-- The loop ends where its condition fails, and the invariant holds there. -/
theorem whileLoop_rule {turns : Nat} {val : α} {state : σ}
    (hturns : measure val state < turns) (hinv : P val state) :
    ∃ last final, whileLoop unending cond body turns val state = .ok last final ∧
      P last final ∧ ¬ goes last final := by
  induction turns generalizing val state with
  | zero => exact absurd hturns (Nat.not_lt_zero _)
  | succ turns ih =>
    have htest := hcond val state hinv
    by_cases hgoes : goes val state
    · obtain ⟨next, state', hbody, hnext, hless⟩ := hstep val state hinv hgoes
      obtain ⟨last, final, hloop, hlast⟩ :=
        ih (Nat.lt_of_lt_of_le hless (Nat.le_of_lt_succ hturns)) hnext
      refine ⟨last, final, ?_, hlast⟩
      rw [whileLoop, run_bind htest, decide_eq_true hgoes]
      exact (run_bind hbody).trans hloop
    · refine ⟨val, state, ?_, hinv, hgoes⟩
      rw [whileLoop, run_bind htest, decide_eq_false hgoes]
      rfl

/-- What comes after the loop starts where its condition has failed. -/
theorem whileLoop_bind {turns : Nat} {val : α} {state : σ}
    (hturns : measure val state < turns) (hinv : P val state) {rest : α → EStateM ε σ β}
    {res : EStateM.Result ε σ β}
    (hrest : ∀ last final, P last final → ¬ goes last final → rest last final = res) :
    (whileLoop unending cond body turns val >>= rest) state = res := by
  obtain ⟨last, final, hrun, hlast, hend⟩ := whileLoop_rule P goes measure hcond hstep hturns hinv
  rw [run_bind hrun, hrest last final hlast hend]

end

end StatefulResults

/-!
## Programs that write

A program writes behind what was written before, and may fail. `Emits` says which symbols a
program that does not fail adds, whatever was written before it.
-/

namespace Emission

open List

variable {σ ε α β : Type}

abbrev Writer (σ ε : Type) := StateT (List σ) (Except ε)

def Emits (prog : Writer σ ε Unit) (symbols : List σ) : Prop :=
  ∀ before, prog before = .ok ((), before ++ symbols)

theorem emits_append (symbols : List σ) : Emits (modify (· ++ symbols) : Writer σ ε Unit) symbols :=
  fun _ => rfl

theorem emits_pure : Emits (pure () : Writer σ ε Unit) [] := by
  intro before
  rw [append_nil]
  rfl

theorem Emits.seq {prog : Writer σ ε Unit} {rest : Unit → Writer σ ε Unit}
    {symbols others : List σ} (hprog : Emits prog symbols) (hrest : Emits (rest ()) others) :
    Emits (prog >>= rest) (symbols ++ others) := by
  intro before
  rw [← append_assoc, ← hrest]
  simp only [bind, StateT.bind, Except.bind, hprog before]

/-- A computation that writes nothing, before a program that uses its result. -/
theorem Emits.lift {computation : Except ε α} {val : α} {rest : α → Writer σ ε Unit}
    {symbols : List σ} (hcomputation : computation = .ok val) (hrest : Emits (rest val) symbols) :
    Emits ((liftM computation : Writer σ ε α) >>= rest) symbols := by
  intro before
  rw [← hrest, hcomputation]
  rfl

theorem Emits.forM {step : α → Writer σ ε Unit} {write : α → List σ} {items : List α}
    (hstep : ∀ item ∈ items, Emits (step item) (write item)) :
    Emits (items.forM step) (items.flatMap write) := by
  induction items with
  | nil => exact emits_pure
  | cons item rest ih =>
    rw [flatMap_cons]
    apply Emits.seq (hstep item mem_cons_self)
    exact ih fun other hother => hstep other (mem_cons_of_mem _ hother)

end Emission
