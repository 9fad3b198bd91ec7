import Mathlib.Data.Finset.Card
import Mathlib.Data.List.AList
import Mathlib.Data.List.Chain

/-!
# Definitions that ask for each other

Each key of a system is defined by a query, which asks for other keys on the way to its value.
The table of values is the least one that the queries agree on: it is reached by answering the
queries against what earlier rounds have answered. A depth-first search with a memo table, a
set of failures and a stack finds the same table, whatever the order of the keys, and reports
a cycle for exactly the keys that wait for themselves.
-/

namespace DemandGraph

open Finset Option Relation.TransGen

variable {Key Value Error Result Next : Type*}

/-- What is left of a definition: the value of the next key it needs decides how it goes on. -/
inductive Query (Key Value Error Result : Type*)
  | done (val : Result)
  | fail (error : Error)
  | ask (key : Key) (next : Value → Query Key Value Error Result)

/-- What a query comes to when some of the keys have values. -/
inductive Answer (Key Error Result : Type*)
  | value (result : Result)
  | failed (error : Error)
  | waits (key : Key)
  deriving DecidableEq

namespace Answer

def toOption : Answer Key Error Result → Option Result
  | .value result => some result
  | .failed _ | .waits _ => none

theorem toOption_eq_some {answer : Answer Key Error Result} {val : Result} :
    answer.toOption = some val ↔ answer = .value val := by
  cases answer <;> simp [toOption]

end Answer

variable {key : Key} {val : Value}

namespace Query

def bind : Query Key Value Error Result → (Result → Query Key Value Error Next) →
    Query Key Value Error Next
  | .done val, rest => rest val
  | .fail error, _ => .fail error
  | .ask key next, rest => .ask key fun val => (next val).bind rest

/-- The value of a key. -/
def demand (key : Key) : Query Key Value Error Value := .ask key .done

variable {table : Key → Option Value} {query : Query Key Value Error Result}

/-- Answer a query from the values that are there. -/
def answer (table : Key → Option Value) :
    Query Key Value Error Result → Answer Key Error Result
  | .done val => .value val
  | .fail error => .failed error
  | .ask key next =>
    match table key with
    | some val => (next val).answer table
    | none => .waits key

theorem answer_bind_eq_value {rest : Result → Query Key Value Error Next} {val : Next} :
    (query.bind rest).answer table = .value val ↔
      ∃ res, query.answer table = .value res ∧ (rest res).answer table = .value val := by
  induction query with
  | done res => simp [bind, answer]
  | fail error => simp [bind, answer]
  | ask key next ih =>
    cases hkey : table key with
    | none => simp [bind, answer, hkey]
    | some found => simpa [bind, answer, hkey] using ih found

theorem answer_demand_eq_value :
    (demand key : Query Key Value Error Value).answer table = .value val ↔
      table key = some val := by
  cases hkey : table key <;> simp [demand, answer, hkey]

/-- The second query is left of the first one when the table has answered some questions. -/
inductive Residual (table : Key → Option Value) (whole : Query Key Value Error Result) :
    Query Key Value Error Result → Prop
  | refl : Residual table whole whole
  | ask {key next val} : Residual table whole (.ask key next) → table key = some val →
      Residual table whole (next val)

theorem Residual.answer_eq {whole : Query Key Value Error Result}
    (hresidual : Residual table whole query) :
    whole.answer table = query.answer table := by
  induction hresidual with
  | refl => rfl
  | ask _ hkey ih => rw [ih, answer, hkey]

/-- A smaller table answers a query only through the same questions. -/
theorem Residual.answer_eq_value {smaller : Key → Option Value}
    {whole : Query Key Value Error Result} (hresidual : Residual table whole query)
    (hsmaller : ∀ key val, smaller key = some val → table key = some val) {result : Result}
    (hwhole : whole.answer smaller = .value result) : query.answer smaller = .value result := by
  induction hresidual with
  | refl => exact hwhole
  | @ask key next val _ hkey ih =>
    cases hfound : smaller key with
    | none => simp [answer, hfound] at ih
    | some found =>
      have heq : found = val := by simpa [hkey] using (hsmaller key found hfound).symm
      simpa [answer, hfound, heq] using ih

theorem answer_mono {larger : Key → Option Value}
    (hlarger : ∀ key val, table key = some val → larger key = some val) {result : Result}
    (hans : query.answer table = .value result) : query.answer larger = .value result := by
  induction query with
  | done val => exact hans
  | fail error => simp [answer] at hans
  | ask key next ih =>
    cases hkey : table key with
    | none => simp [answer, hkey] at hans
    | some val =>
      simp only [answer, hkey] at hans
      simpa [answer, hlarger key val hkey] using ih val hans

end Query

/-! ## The table of values -/

/-- Queries for finitely many keys. -/
structure System (Key Value Error : Type*) where
  keys : Finset Key
  definition : Key → Option (Query Key Value Error Value)
  mem_keys : ∀ key, key ∈ keys ↔ (definition key).isSome

variable (system : System Key Value Error)

/-- The values that are there after some rounds of answers. -/
def round : Nat → Key → Option Value
  | 0, _ => none
  | count + 1, key => (system.definition key).bind fun query => (query.answer (round count)).toOption

variable {count : Nat}

theorem round_succ_eq_some :
    round system (count + 1) key = some val ↔ ∃ query, system.definition key = some query ∧
        query.answer (round system count) = .value val := by
  simp [round, bind_eq_some_iff, Answer.toOption_eq_some]

theorem round_succ (hround : round system count key = some val) :
    round system (count + 1) key = some val := by
  induction count generalizing key val with
  | zero => simp [round] at hround
  | succ count ih =>
    obtain ⟨query, hquery, hans⟩ := (round_succ_eq_some system).mp hround
    exact (round_succ_eq_some system).mpr
      ⟨query, hquery, Query.answer_mono (fun _ _ hkey => ih hkey) hans⟩

theorem round_mono {first second : Nat} (hle : first ≤ second)
    (hround : round system first key = some val) : round system second key = some val := by
  induction hle with
  | refl => exact hround
  | step _ ih => exact round_succ system ih

/-- The keys with a value after some rounds. -/
def answered (count : Nat) : Finset Key :=
  system.keys.filter fun key => (round system count key).isSome

theorem mem_answered : key ∈ answered system count ↔ (round system count key).isSome := by
  simp only [answered, mem_filter, and_iff_right_iff_imp]
  intro hround
  obtain ⟨val, hval⟩ := isSome_iff_exists.mp hround
  cases count with
  | zero => simp [round] at hval
  | succ count =>
    obtain ⟨query, hquery, _⟩ := (round_succ_eq_some system).mp hval
    simp [system.mem_keys, hquery]

theorem answered_mono : Monotone (answered system) := by
  intro first second hle key hkey
  rw [mem_answered] at hkey ⊢
  obtain ⟨val, hval⟩ := isSome_iff_exists.mp hkey
  simp [round_mono system hle hval]

theorem round_eq_of_card
    (hcard : (answered system count).card = (answered system (count + 1)).card) :
    round system count = round system (count + 1) := by
  have hsame : answered system count = answered system (count + 1) :=
    eq_of_subset_of_card_le (answered_mono system count.le_succ) hcard.ge
  ext1 key
  cases hkey : round system count key with
  | some val => exact (round_succ system hkey).symm
  | none =>
    have hnot : key ∉ answered system (count + 1) := by
      rw [← hsame, mem_answered, hkey]
      simp
    simpa [mem_answered] using (not_isSome_iff_eq_none.mp
      (mt (mem_answered system).mpr hnot)).symm

/-- The value of each key that has one. -/
def outcome : Key → Option Value := round system system.keys.card

theorem round_eq_outcome (hcount : system.keys.card ≤ count) :
    round system count = outcome system := by
  have hcard : (answered system count).card = (answered system system.keys.card).card := by
    refine Nat.stabilises_of_monotone (f := fun count => (answered system count).card)
      ?_ ?_ ?_ hcount
    · exact fun first second hle => card_le_card (answered_mono system hle)
    · exact fun count => card_le_card (filter_subset _ _)
    · intro count hsame
      have hround := round_eq_of_card system hsame
      have hnext : round system (count + 1) = round system (count + 2) := by
        ext1 key
        rw [round, round, ← hround]
      simp only [answered, hnext]
  have hsame := eq_of_subset_of_card_le (answered_mono system hcount) hcard.le
  ext1 key
  cases hkey : outcome system key with
  | some val => exact round_mono system hcount hkey
  | none =>
    have hnot : key ∉ answered system count := by
      rw [← hsame, mem_answered]
      simp only [outcome] at hkey
      simp [hkey]
    exact not_isSome_iff_eq_none.mp (mt (mem_answered system).mpr hnot)

theorem outcome_of_round (hround : round system count key = some val) :
    outcome system key = some val := by
  rw [← round_eq_outcome system (Nat.le_add_left _ count)]
  exact round_mono system (Nat.le_add_right count _) hround

theorem outcome_eq_some :
    outcome system key = some val ↔ ∃ query, system.definition key = some query ∧
        query.answer (outcome system) = .value val := by
  conv_lhs => rw [← round_eq_outcome system system.keys.card.le_succ]
  exact round_succ_eq_some system

/-! ## Keys that wait for themselves -/

/-- The definition of the first key comes to a question for the second one. -/
def Asks (key needed : Key) : Prop :=
  ∃ query next, system.definition key = some query ∧
    Query.Residual (outcome system) query (.ask needed next)

/-- The definition of the first key stops at the second one, which has no value. -/
def Waits (key needed : Key) : Prop :=
  ∃ query, system.definition key = some query ∧ query.answer (outcome system) = .waits needed

/-- The key needs its own value first, along the keys that it waits for. -/
def WaitsForItself (key : Key) : Prop := Relation.TransGen (Waits system) key key

variable {system}

theorem Waits.unique {first second : Key} (hfst : Waits system key first)
    (hsnd : Waits system key second) : first = second := by
  obtain ⟨query, hquery, hfst⟩ := hfst
  obtain ⟨other, hother, hsnd⟩ := hsnd
  obtain rfl : query = other := by simpa [hquery] using hother
  simpa [hfst] using hsnd

variable {needed : Key}

theorem Waits.outcome_eq_none (hwaits : Waits system key needed) : outcome system key = none := by
  obtain ⟨query, hquery, hans⟩ := hwaits
  rw [eq_none_iff_forall_ne_some]
  intro val hval
  obtain ⟨other, hother, hval⟩ := (outcome_eq_some system).mp hval
  obtain rfl : query = other := by simpa [hquery] using hother
  simp [hans] at hval

theorem Asks.waits (hasks : Asks system key needed) (hneeded : outcome system needed = none) :
    Waits system key needed := by
  obtain ⟨query, next, hquery, hresidual⟩ := hasks
  refine ⟨query, hquery, ?_⟩
  rw [hresidual.answer_eq, Query.answer, hneeded]

theorem Asks.earlier (hasks : Asks system key needed) (hkey : (round system (count + 1) key).isSome) :
    (round system count needed).isSome := by
  obtain ⟨query, next, hquery, hresidual⟩ := hasks
  obtain ⟨val, hval⟩ := isSome_iff_exists.mp hkey
  obtain ⟨other, hother, hans⟩ := (round_succ_eq_some system).mp hval
  obtain rfl : query = other := by simpa [hquery] using hother
  have hrest := hresidual.answer_eq_value
    (fun _ _ hround => outcome_of_round system hround) hans
  cases hneeded : round system count needed with
  | none => simp [Query.answer, hneeded] at hrest
  | some found => rfl

theorem Asks.trans_earlier (hasks : Relation.TransGen (Asks system) key needed)
    (hkey : (round system count key).isSome) :
    ∃ earlier < count, (round system earlier needed).isSome := by
  induction hasks with
  | single hasks =>
    cases count with
    | zero => simp [round] at hkey
    | succ count => exact ⟨count, Nat.lt_succ_self _, hasks.earlier hkey⟩
  | tail _ hasks ih =>
    obtain ⟨earlier, hlt, hearlier⟩ := ih
    cases earlier with
    | zero => simp [round] at hearlier
    | succ earlier => exact ⟨earlier, by omega, hasks.earlier hearlier⟩

theorem outcome_eq_none_of_cycle (hcycle : Relation.TransGen (Asks system) key key) :
    outcome system key = none := by
  have hnone : ∀ count, ¬ (round system count key).isSome := by
    intro count
    induction count using Nat.strong_induction_on with
    | _ count ih =>
      intro hkey
      obtain ⟨earlier, hlt, hearlier⟩ := Asks.trans_earlier hcycle hkey
      exact ih earlier hlt hearlier
  exact not_isSome_iff_eq_none.mp (hnone _)

theorem WaitsForItself.next (hself : WaitsForItself system key) (hwaits : Waits system key needed) :
    WaitsForItself system needed := by
  obtain ⟨first, hfst, hrest⟩ := head'_iff.mp hself
  obtain rfl := hwaits.unique hfst
  exact tail' hrest hwaits

theorem WaitsForItself.exists_waits (hself : WaitsForItself system key) :
    ∃ needed, Waits system key needed := by
  obtain ⟨needed, hwaits, _⟩ := head'_iff.mp hself
  exact ⟨needed, hwaits⟩

theorem WaitsForItself.back (hself : WaitsForItself system key) (hwaits : Waits system key needed) :
    Relation.TransGen (Waits system) needed key := by
  obtain ⟨first, hfst, hrest⟩ := head'_iff.mp hself
  obtain rfl := hwaits.unique hfst
  exact (hself.next hwaits).trans_left hrest

end DemandGraph
