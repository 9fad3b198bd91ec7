import Mathlib.Data.List.Basic

/-!
# Parsers over tokens

A parser takes the tokens that are left and gives a value with the tokens that are left then,
or an error. `Reads` says what a parser has read when it gives a value, and that its errors are
of the expected kind. Left-associative chains and separated sequences are loops over a parser
for their elements; their fuel is the number of the tokens that are left.
-/

def TokenParser (Token Error Value : Type) : Type := List Token → Except Error (Value × List Token)

namespace TokenParser

open List

variable {Token Error Value Result Operator : Type}

instance : Monad (TokenParser Token Error) where
  pure val := fun tokens => .ok (val, tokens)
  bind parser next := fun tokens =>
    match parser tokens with
    | .ok (val, rest) => next val rest
    | .error error => .error error

def fail (error : Error) : TokenParser Token Error Value := fun _ => .error error

/-- The tokens that are left. -/
def position : TokenParser Token Error (List Token) := fun tokens => .ok (tokens, tokens)

/-- Take the next token when the function has a value for it. -/
def takeMap (accepts : Token → Option Value) : TokenParser Token Error (Option Value)
  | [] => .ok (none, [])
  | token :: rest =>
    match accepts token with
    | some val => .ok (some val, rest)
    | none => .ok (none, token :: rest)

/-- Take the next token when it is the given one. -/
def take [DecidableEq Token] (expected : Token) : TokenParser Token Error Bool
  | [] => .ok (false, [])
  | token :: rest => if token = expected then .ok (true, rest) else .ok (false, token :: rest)

@[simp] theorem position_apply (tokens : List Token) :
    (position : TokenParser Token Error (List Token)) tokens = .ok (tokens, tokens) := rfl

theorem bind_apply (parser : TokenParser Token Error Value)
    (next : Value → TokenParser Token Error Result) (tokens : List Token) :
    (parser >>= next) tokens =
      match parser tokens with
      | .ok (val, rest) => next val rest
      | .error error => .error error := rfl

variable {tokens rest : List Token} {parser : TokenParser Token Error Value} {val : Value}
  {next : Value → TokenParser Token Error Result}

theorem bind_of_ok (hparse : parser tokens = .ok (val, rest)) :
    (parser >>= next) tokens = next val rest := by
  rw [bind_apply, hparse]

variable {error : Error}

theorem bind_of_error (hparse : parser tokens = .error error) :
    (parser >>= next) tokens = .error error := by
  rw [bind_apply, hparse]

variable {token : Token}

theorem takeMap_of_some {accepts : Token → Option Value} (haccepts : accepts token = some val)
    (rest : List Token) :
    (takeMap accepts : TokenParser Token Error (Option Value)) (token :: rest) =
      .ok (some val, rest) := by
  simp [takeMap, haccepts]

theorem takeMap_of_none {accepts : Token → Option Value}
    (haccepts : ∀ token ∈ tokens.head?, accepts token = none) :
    (takeMap accepts : TokenParser Token Error (Option Value)) tokens = .ok (none, tokens) := by
  cases tokens with
  | nil => rfl
  | cons token rest => simp [takeMap, haccepts token rfl]

section Take

variable [DecidableEq Token]

@[simp] theorem take_cons (expected token : Token) (rest : List Token) :
    (take expected : TokenParser Token Error Bool) (token :: rest) =
      if token = expected then .ok (true, rest) else .ok (false, token :: rest) := rfl

theorem take_self (expected : Token) (rest : List Token) :
    (take expected : TokenParser Token Error Bool) (expected :: rest) = .ok (true, rest) :=
  if_pos rfl

theorem take_other {expected : Token} (hne : token ≠ expected) (rest : List Token) :
    (take expected : TokenParser Token Error Bool) (token :: rest) = .ok (false, token :: rest) :=
  if_neg hne

theorem take_of_ne {expected : Token} (hne : ∀ token ∈ tokens.head?, token ≠ expected) :
    (take expected : TokenParser Token Error Bool) tokens = .ok (false, tokens) := by
  cases tokens with
  | nil => rfl
  | cons token rest => simp [hne token rfl]

end Take

/-! ## What a parser reads -/

section Reads

variable {expected : Error → Prop}

/-- From these tokens the parser reads some that the value stands for, or fails as expected. -/
def Reads (expected : Error → Prop) (parser : TokenParser Token Error Value)
    (tokens : List Token) (reading : List Token → Value → Prop) : Prop :=
  match parser tokens with
  | .ok (val, rest) => ∃ read, tokens = read ++ rest ∧ reading read val
  | .error error => expected error

variable {reading : List Token → Value → Prop}

theorem Reads.of_ok (hreads : Reads expected parser tokens reading)
    (hparse : parser tokens = .ok (val, rest)) :
    ∃ read, tokens = read ++ rest ∧ reading read val := by
  rw [Reads, hparse] at hreads
  exact hreads

theorem Reads.of_error (hreads : Reads expected parser tokens reading)
    (hparse : parser tokens = .error error) :
    expected error := by
  rw [Reads, hparse] at hreads
  exact hreads

theorem reads_pure (hreading : reading [] val) :
    Reads expected (pure val : TokenParser Token Error Value) tokens reading :=
  ⟨[], rfl, hreading⟩

theorem reads_ok (read : List Token) (hparse : parser tokens = .ok (val, rest))
    (htoks : tokens = read ++ rest) (hreading : reading read val) :
    Reads expected parser tokens reading := by
  rw [Reads, hparse]
  exact ⟨read, htoks, hreading⟩

theorem reads_error (hparse : parser tokens = .error error) (herror : expected error) :
    Reads expected parser tokens reading := by
  rw [Reads, hparse]
  exact herror

theorem reads_bind_position {next : List Token → TokenParser Token Error Value}
    (hnext : Reads expected (next tokens) tokens reading) :
    Reads expected (position >>= next) tokens reading := hnext

theorem Reads.mono {first second : List Token → Value → Prop}
    (hreads : Reads expected parser tokens first)
    (hmono : ∀ read val, first read val → second read val) :
    Reads expected parser tokens second := by
  unfold Reads at hreads ⊢
  split
  · next val rest hparse =>
      rw [hparse] at hreads
      obtain ⟨read, htoks, hread⟩ := hreads
      exact ⟨read, htoks, hmono read val hread⟩
  · next error hparse =>
      rw [hparse] at hreads
      exact hreads

theorem Reads.bind {first : List Token → Value → Prop} {reading : List Token → Result → Prop}
    (hparse : Reads expected parser tokens first)
    (hnext : ∀ read val rest, tokens = read ++ rest → first read val →
      Reads expected (next val) rest fun more result => reading (read ++ more) result) :
    Reads expected (parser >>= next) tokens reading := by
  rw [Reads, bind_apply]
  cases hval : parser tokens with
  | error error => exact hparse.of_error hval
  | ok outcome =>
    obtain ⟨val, rest⟩ := outcome
    obtain ⟨read, htoks, hread⟩ := hparse.of_ok hval
    have hrest := hnext read val rest htoks hread
    cases hres : next val rest with
    | error error => simpa only [hres] using hrest.of_error hres
    | ok outcome =>
      obtain ⟨result, last⟩ := outcome
      obtain ⟨more, hmore, hreading⟩ := hrest.of_ok hres
      simp only [hres]
      exact ⟨read ++ more, by rw [htoks, hmore, append_assoc], hreading⟩

theorem reads_rest {next : TokenParser Token Error Value} (heq : parser (token :: rest) = next rest)
    (hnext : Reads expected next rest fun more val => reading (token :: more) val) :
    Reads expected parser (token :: rest) reading := by
  rw [Reads, heq]
  cases hval : next rest with
  | error error => exact hnext.of_error hval
  | ok outcome =>
    obtain ⟨val, last⟩ := outcome
    obtain ⟨more, hmore, hreading⟩ := hnext.of_ok hval
    exact ⟨token :: more, by rw [hmore, cons_append], hreading⟩

theorem reads_takeMap (accepts : Token → Option Value) (tokens : List Token) :
    Reads expected (takeMap accepts : TokenParser Token Error (Option Value)) tokens
      fun read taken => (read = [] ∧ taken = none) ∨
        ∃ token val, read = [token] ∧ accepts token = some val ∧ taken = some val := by
  cases tokens with
  | nil => exact ⟨[], rfl, .inl ⟨rfl, rfl⟩⟩
  | cons token rest =>
    cases haccepts : accepts token with
    | none =>
      rw [Reads, takeMap, haccepts]
      exact ⟨[], rfl, .inl ⟨rfl, rfl⟩⟩
    | some val =>
      rw [Reads, takeMap, haccepts]
      exact ⟨[token], rfl, .inr ⟨token, val, rfl, haccepts, rfl⟩⟩

theorem reads_take [DecidableEq Token] (token : Token) (tokens : List Token) :
    Reads expected (take token : TokenParser Token Error Bool) tokens
      fun read taken => (read = [] ∧ taken = false) ∨ (read = [token] ∧ taken = true) := by
  cases tokens with
  | nil => exact ⟨[], rfl, .inl ⟨rfl, rfl⟩⟩
  | cons next rest =>
    rw [Reads, take_cons]
    split
    · next val remaining heq =>
        split at heq <;> simp only [Except.ok.injEq, Prod.mk.injEq] at heq
        · next hsame =>
            obtain ⟨rfl, rfl⟩ := heq
            exact ⟨[token], by rw [hsame]; rfl, .inr ⟨rfl, rfl⟩⟩
        · obtain ⟨rfl, rfl⟩ := heq
          exact ⟨[], rfl, .inl ⟨rfl, rfl⟩⟩
    · next heq => split at heq <;> simp at heq

end Reads

/-! ## Chains of one associativity -/

section Chain

variable (op : Token → Option Operator) (combine : Operator → Value → Value → Value)
  (opnd : TokenParser Token Error Value) (exhausted : Error)

def chainLoop : Nat → Value → TokenParser Token Error Value
  | 0, _ => fail exhausted
  | fuel + 1, left => do
    match ← takeMap op with
    | none => pure left
    | some found =>
      let right ← opnd
      chainLoop fuel (combine found left right)

/-- Operands with operators between them, grouped to the left. -/
def chainLeft : TokenParser Token Error Value := do
  let left ← opnd
  let rest ← position
  chainLoop op combine opnd exhausted (rest.length + 1) left

variable {op combine opnd exhausted}

theorem chainLoop_stop {fuel : Nat} {left : Value} (hfuel : 0 < fuel)
    (hstop : ∀ token ∈ tokens.head?, op token = none) :
    chainLoop op combine opnd exhausted fuel left tokens = .ok (left, tokens) := by
  obtain ⟨fuel, rfl⟩ := Nat.exists_eq_succ_of_ne_zero (Nat.pos_iff_ne_zero.mp hfuel)
  rw [chainLoop, bind_of_ok (takeMap_of_none hstop)]
  rfl

theorem chainLoop_step {fuel : Nat} {left right : Value} {found : Operator}
    (hfound : op token = some found) (hright : opnd tokens = .ok (right, rest)) :
    chainLoop op combine opnd exhausted (fuel + 1) left (token :: tokens) =
      chainLoop op combine opnd exhausted fuel (combine found left right) rest := by
  rw [chainLoop, bind_of_ok (takeMap_of_some hfound tokens)]
  exact bind_of_ok hright

theorem chainLeft_of_operand {left : Value} (hleft : opnd tokens = .ok (left, rest)) :
    chainLeft op combine opnd exhausted tokens =
      chainLoop op combine opnd exhausted (rest.length + 1) left rest := by
  rw [chainLeft, bind_of_ok hleft]
  rfl

theorem chainLeft_of_error (hleft : opnd tokens = .error error) :
    chainLeft op combine opnd exhausted tokens = .error error := by
  rw [chainLeft, bind_of_error hleft]

variable {expected : Error → Prop} {parts whole : List Token → Value → Prop}

/-- A loop whose operands read parts reads wholes, when a whole, an operator and a part are a
whole. -/
theorem chainLoop_reads
    (hcombine : ∀ read left token found more right, whole read left →
      op token = some found → parts more right →
      whole (read ++ token :: more) (combine found left right)) :
    ∀ (fuel : Nat) (left : Value) (read tokens : List Token), tokens.length < fuel →
      (∀ tail : List Token, tail <:+ tokens → Reads expected opnd tail parts) →
      whole read left →
      Reads expected (chainLoop op combine opnd exhausted fuel left) tokens
        fun more val => whole (read ++ more) val := by
  intro fuel
  induction fuel with
  | zero => intro left read tokens hfuel; exact absurd hfuel (Nat.not_lt_zero _)
  | succ fuel ih =>
    intro left read tokens hfuel hoperand hleft
    rw [chainLoop]
    apply (reads_takeMap op tokens).bind
    intro first taken rest htoks htaken
    rcases htaken with ⟨rfl, rfl⟩ | ⟨token, found, rfl, hfound, rfl⟩
    · apply reads_pure
      simpa using hleft
    · have hlen : tokens.length = rest.length + 1 := by
        rw [htoks]
        simp
      have hsuffix : rest <:+ tokens := ⟨[token], htoks.symm⟩
      apply (hoperand rest hsuffix).bind
      intro more right tail hrest hright
      have htail : rest.length = more.length + tail.length := by rw [hrest, length_append]
      have hlast : tail <:+ rest := ⟨more, hrest.symm⟩
      have hloop := ih (combine found left right) (read ++ token :: more) tail (by omega)
        (fun later hlater => hoperand later ((hlater.trans hlast).trans hsuffix))
        (hcombine read left token found more right hleft hfound hright)
      apply hloop.mono
      intro last val hlast
      simpa using hlast

theorem chainLeft_reads
    (hoperand : ∀ tail : List Token, tail <:+ tokens → Reads expected opnd tail parts)
    (hparts : ∀ read val, parts read val → whole read val)
    (hcombine : ∀ read left token found more right, whole read left →
      op token = some found → parts more right →
      whole (read ++ token :: more) (combine found left right)) :
    Reads expected (chainLeft op combine opnd exhausted) tokens whole := by
  apply (hoperand tokens (suffix_refl tokens)).bind
  intro read left rest htoks hleft
  have hsuffix : rest <:+ tokens := ⟨read, htoks.symm⟩
  apply reads_bind_position
  exact chainLoop_reads hcombine (rest.length + 1) left read rest (Nat.lt_succ_self _)
    (fun later hlater => hoperand later (hlater.trans hsuffix)) (hparts read left hleft)

end Chain

/-! ## Separated sequences -/

section Sequence

variable [DecidableEq Token] (comma close : Token)
  (item : List Value → TokenParser Token Error Value)
  (expectClose : TokenParser Token Error Unit) (exhausted : Error)

/-- The rest of a sequence, up to its closing token, before which a comma may stand. An item is
read with the items before it. -/
def sequenceLoop : Nat → List Value → TokenParser Token Error (List Value)
  | 0, _ => fail exhausted
  | fuel + 1, values => do
    let val ← item values
    if ← take comma then
      if ← take close then pure (values ++ [val])
      else sequenceLoop fuel (values ++ [val])
    else do
      expectClose
      pure (values ++ [val])

variable {comma close item expectClose exhausted}

theorem sequenceLoop_comma {fuel : Nat} {values : List Value}
    (hitem : item values tokens = .ok (val, comma :: rest))
    (hopen : ∀ token ∈ rest.head?, token ≠ close) :
    sequenceLoop comma close item expectClose exhausted (fuel + 1) values tokens =
      sequenceLoop comma close item expectClose exhausted fuel (values ++ [val]) rest := by
  rw [sequenceLoop, bind_of_ok hitem, bind_of_ok (take_self comma rest)]
  exact bind_of_ok (take_of_ne hopen)

theorem sequenceLoop_close {fuel : Nat} {values : List Value} (hne : close ≠ comma)
    (hitem : item values tokens = .ok (val, close :: rest))
    (hclose : expectClose (close :: rest) = .ok ((), rest)) :
    sequenceLoop comma close item expectClose exhausted (fuel + 1) values tokens =
      .ok (values ++ [val], rest) := by
  rw [sequenceLoop, bind_of_ok hitem, bind_of_ok (take_other hne rest)]
  exact bind_of_ok hclose

variable {expected : Error → Prop} {parts : List Value → List Token → Value → Prop}
  {group : List Token → List Value → Prop}

/-- Before an item: nothing has been read, or a group and a comma. -/
def Opened (comma : Token) (group : List Token → List Value → Prop) (read : List Token)
    (values : List Value) : Prop :=
  read = [] ∧ values = [] ∨ ∃ front, read = front ++ [comma] ∧ values ≠ [] ∧ group front values

/-- A group that is closed, perhaps after a comma. -/
def Closed (comma close : Token) (group : List Token → List Value → Prop) (read : List Token)
    (values : List Value) : Prop :=
  ∃ front, (read = front ++ [close] ∨ read = front ++ [comma, close]) ∧ values ≠ [] ∧
    group front values

omit [DecidableEq Token] in
theorem Closed.exists_inner {read : List Token} {values : List Value}
    (hclosed : Closed comma close group read values) :
    ∃ front inner, group front values ∧ read = inner ++ [close] ∧
      (inner = front ∨ values ≠ [] ∧ inner = front ++ [comma]) := by
  obtain ⟨front, rfl | rfl, hne, hgroup⟩ := hclosed
  · exact ⟨front, front, hgroup, rfl, .inl rfl⟩
  · exact ⟨front, front ++ [comma], hgroup, by simp, .inr ⟨hne, rfl⟩⟩

/-- A sequence is read as a group, when an item is a group and a group with a comma and an item
behind it is one. -/
theorem sequenceLoop_reads
    (hone : ∀ tokens val, parts [] tokens val → group tokens [val])
    (hmore : ∀ front values tokens val, values ≠ [] → group front values →
      parts values tokens val → group (front ++ comma :: tokens) (values ++ [val]))
    (hexpect : ∀ tokens, Reads expected expectClose tokens fun read _ => read = [close]) :
    ∀ (fuel : Nat) (values : List Value) (read tokens : List Token), tokens.length < fuel →
      (∀ (prior : List Value) (tail : List Token), tail <:+ tokens →
        Reads expected (item prior) tail (parts prior)) →
      Opened comma group read values →
      Reads expected (sequenceLoop comma close item expectClose exhausted fuel values) tokens
        fun more result => values.length < result.length ∧
          Closed comma close group (read ++ more) result := by
  -- an item ends a group, whatever has been read before it
  have hgroup : ∀ read values tokens val, Opened comma group read values →
      parts values tokens val → group (read ++ tokens) (values ++ [val]) := by
    intro read values tokens val hopened hitem
    rcases hopened with ⟨rfl, rfl⟩ | ⟨front, rfl, hne, hfront⟩
    · exact hone tokens val hitem
    · simpa using hmore front values tokens val hne hfront hitem
  intro fuel
  induction fuel with
  | zero => intro values read tokens hfuel; exact absurd hfuel (Nat.not_lt_zero _)
  | succ fuel ih =>
    intro values read tokens hfuel hitem hopened
    rw [sequenceLoop]
    apply (hitem values tokens (suffix_refl tokens)).bind
    intro more val rest htoks hval
    have hread := hgroup read values more val hopened hval
    have hlen : tokens.length = more.length + rest.length := by
      rw [htoks, length_append]
    apply (reads_take comma rest).bind
    intro sep taken tail hrest htaken
    rcases htaken with ⟨rfl, rfl⟩ | ⟨rfl, rfl⟩
    · apply (hexpect tail).bind
      intro last _ final _ hlast
      apply reads_pure
      rw [hlast]
      exact ⟨by simp, read ++ more, .inl (by simp), by simp, hread⟩
    · have htail : rest.length = tail.length + 1 := by
        rw [hrest]
        simp
      apply (reads_take close tail).bind
      intro closing taken final hfinal htaken
      rcases htaken with ⟨rfl, rfl⟩ | ⟨rfl, rfl⟩
      · obtain rfl : tail = final := hfinal
        have hsuffix : tail <:+ tokens := ⟨more ++ [comma], by rw [htoks, hrest]; simp⟩
        have hloop := ih (values ++ [val]) (read ++ more ++ [comma]) tail (by omega)
          (fun prior later hlater => hitem prior later (hlater.trans hsuffix))
          (.inr ⟨read ++ more, rfl, by simp, hread⟩)
        apply hloop.mono
        rintro later result ⟨hlonger, hclosed⟩
        rw [length_append] at hlonger
        exact ⟨by omega, by simpa using hclosed⟩
      · apply reads_pure
        exact ⟨by simp, read ++ more, .inr (by simp), by simp, hread⟩

end Sequence

end TokenParser
