import Mathlib.Algebra.Order.Floor.Ring
import Mathlib.Data.Int.Bitwise
import Mathlib.Data.Rat.Floor
import Abacus.Expr
import Abacus.Proofs.CheckedWords

/-!
# Integers are exact

An expression has an *exact value* if it has one over the unbounded integers: all its
literals and variables are integers, nothing is divided by zero, every division comes out
even, and no exponent and no shift amount is negative.  `Expr.exactValue?` computes it, without
words and without limits; floors are those of rational numbers, and bits are those of two's
complement, which go on forever to the left.

The calculator works on words of 64 bits.  What it answers as an integer is the exact value,
and what it refuses as an overflow is an exact result that no word stands for
(`Expr.integers_exact`).

## One operation at a time

That the checked operations on words meet those on the unbounded integers is the subject of
`Abacus.Proofs.CheckedWords`.  From there on everything comes from one lemma for each kind of
operation (`applyUnary_int`, `applyInt_eq`): if there is an exact result, the answer is the word
for it, or an overflow where there is no such word.  Two operations keep away from this.  The
remainder also overflows where only the quotient does not fit, and a shift by 64 or more is
refused before anything is shifted.  When there is no exact result the answer is never an integer
(`offIntegers_applyInt`).
-/

namespace Abacus

/-- The exact result of an operation on an integer. -/
def UnaryOp.exact : UnaryOp → Int → Int
  | .negate, m => -m
  | .complement, m => Int.lnot m
  | .absolute, m => |m|

/-- The exact result of an operation on two integers, if it has one. -/
def BinaryOp.exactResult? : BinaryOp → Int → Int → Option Int
  | .add, m, n => some (m + n)
  | .sub, m, n => some (m - n)
  | .mul, m, n => some (m * n)
  | .div, m, n => if n ≠ 0 ∧ n ∣ m then some (m / n) else none
  | .floorDiv, m, n => if n ≠ 0 then some ⌊(m / n : ℚ)⌋ else none
  | .mod, m, n => if n ≠ 0 then some (m - n * ⌊(m / n : ℚ)⌋) else none
  | .pow, m, n => if 0 ≤ n then some (m ^ n.toNat) else none
  | .and, m, n => some (Int.land m n)
  | .or, m, n => some (Int.lor m n)
  | .xor, m, n => some (Int.xor m n)
  | .shiftLeft, m, n => if 0 ≤ n then some (m * 2 ^ n.toNat) else none
  | .shiftRight, m, n => if 0 ≤ n then some ⌊(m / 2 ^ n.toNat : ℚ)⌋ else none

/-- Whether the second operand is a number of places to shift by. -/
def BinaryOp.IsShift (op : BinaryOp) : Prop := op = .shiftLeft ∨ op = .shiftRight

namespace Expr

/-- The exact value of an expression, if it has one. -/
def exactValue? (bindings : Dict Number) : Expr → Option Int
  | .number (.int w) => some w.toInt
  | .number (.real _) => none
  | .variable name =>
      match bindings.get? name with
      | some (.int w) => some w.toInt
      | _ => none
  | .unary op operand => (exactValue? bindings operand).map op.exact
  | .binary op left right =>
      (exactValue? bindings left).bind fun m =>
        (exactValue? bindings right).bind fun n => op.exactResult? m n

/-- The expression and all expressions inside it. -/
def parts : Expr → List Expr
  | .number value => [.number value]
  | .variable name => [.variable name]
  | .unary op operand => .unary op operand :: parts operand
  | .binary op left right => .binary op left right :: (parts left ++ parts right)

/-- All literals and variables in the expression are integers. -/
def OnIntegers (bindings : Dict Number) (e : Expr) : Prop :=
  (∀ value, .number value ∈ e.parts → ∃ w, value = .int w) ∧
    ∀ name, .variable name ∈ e.parts → ∃ w, bindings.get? name = some (.int w)

end Expr

/-! ## Two's complement -/

namespace Word

/-- An integer is determined by its bits. -/
theorem eq_of_testBit_eq {m n : Int} (h : ∀ i, m.testBit i = n.testBit i) : m = n := by
  -- Far enough to the left all bits are those of the sign.
  have hsign : ∀ a b : Nat, ∃ i, a.testBit i ≠ !b.testBit i := fun a b => by
    have hfar : ∀ c ≤ a + b, c.testBit (a + b) = false := fun c hc =>
      Nat.testBit_lt_two_pow (Nat.lt_two_pow_self.trans_le (Nat.pow_le_pow_right two_pos hc))
    refine ⟨a + b, ?_⟩
    rw [hfar a (Nat.le_add_right a b), hfar b (Nat.le_add_left b a)]
    decide
  cases m with
  | ofNat a =>
    cases n with
    | ofNat b => exact congrArg Int.ofNat (Nat.eq_of_testBit_eq h)
    | negSucc b =>
      obtain ⟨i, hi⟩ := hsign a b
      exact absurd (h i) hi
  | negSucc a =>
    cases n with
    | ofNat b =>
      obtain ⟨i, hi⟩ := hsign b a
      exact absurd (h i).symm hi
    | negSucc b =>
      exact congrArg Int.negSucc (Nat.eq_of_testBit_eq fun i => Bool.not_inj (h i))

/-- A word stands for the integer that has its bits, and its sign to the left of them. -/
theorem testBit_toInt {w : Nat} (x : BitVec w) (i : Nat) :
    x.toInt.testBit i = if i < w then x.getLsbD i else x.msb := by
  rw [BitVec.toInt_eq_msb_cond]
  cases hmsb : x.msb with
  | false =>
    rw [if_neg Bool.false_ne_true]
    show x.toNat.testBit i = _
    rw [BitVec.testBit_toNat]
    split
    next => rfl
    next hi => exact BitVec.getLsbD_of_ge x i (by omega)
  | true =>
    have hlt := x.isLt
    have hneg : (x.toNat : Int) - (2 ^ w : Nat) = Int.negSucc (2 ^ w - (x.toNat + 1)) := by
      rw [Int.negSucc_eq]
      omega
    rw [if_pos rfl, hneg]
    show (!(2 ^ w - (x.toNat + 1)).testBit i) = _
    rw [Nat.testBit_two_pow_sub_succ hlt, BitVec.testBit_toNat]
    split
    next hi => simp [hi]
    next hi => simp [hi]

/-- What is done bit by bit to two words is done to the integers. -/
theorem toInt_bitwise {x y z : Int64} {n : Int} {f : Bool → Bool → Bool}
    (hn : ∀ i, n.testBit i = f (x.toInt.testBit i) (y.toInt.testBit i))
    (hbits : ∀ i, z.toBitVec.getLsbD i = f (x.toBitVec.getLsbD i) (y.toBitVec.getLsbD i))
    (hsign : z.toBitVec.msb = f x.toBitVec.msb y.toBitVec.msb) : z.toInt = n := by
  refine eq_of_testBit_eq fun i => ?_
  rw [hn, ← Int64.toInt_toBitVec, ← Int64.toInt_toBitVec, ← Int64.toInt_toBitVec, testBit_toInt,
    testBit_toInt, testBit_toInt, hbits, hsign]
  split <;> rfl

theorem toInt_and (x y : Int64) : (x &&& y).toInt = Int.land x.toInt y.toInt :=
  toInt_bitwise (Int.testBit_land _ _) (fun _ => BitVec.getLsbD_and) BitVec.msb_and

theorem toInt_or (x y : Int64) : (x ||| y).toInt = Int.lor x.toInt y.toInt :=
  toInt_bitwise (Int.testBit_lor _ _) (fun _ => BitVec.getLsbD_or) BitVec.msb_or

theorem toInt_xor (x y : Int64) : (x ^^^ y).toInt = Int.xor x.toInt y.toInt :=
  toInt_bitwise (Int.testBit_lxor _ _) (fun _ => BitVec.getLsbD_xor) BitVec.msb_xor

theorem toInt_not (x : Int64) : (~~~x).toInt = Int.lnot x.toInt := by
  refine eq_of_testBit_eq fun i => ?_
  rw [Int.testBit_lnot, ← Int64.toInt_toBitVec, ← Int64.toInt_toBitVec, testBit_toInt,
    testBit_toInt, Int64.toBitVec_not, BitVec.getLsbD_not, BitVec.msb_not]
  split
  next hi => simp [hi]
  next => simp

end Word

/-! ## One operation -/

namespace Number

/-- Dividing and rounding down. -/
theorem floor_div_eq_fdiv (m n : Int) : ⌊(m / n : ℚ)⌋ = m.fdiv n := by
  rcases lt_trichotomy n 0 with hn | rfl | hn
  · obtain ⟨k, hk⟩ := Int.eq_ofNat_of_zero_le (show 0 ≤ -n by omega)
    have hneg : n = -(k : Int) := by omega
    rw [hneg, ← Int.neg_fdiv_neg, neg_neg, Int.fdiv_eq_ediv_of_nonneg _ (Int.natCast_nonneg k),
      ← Rat.floor_intCast_div_natCast]
    push_cast
    rw [div_neg, neg_div]
  · simp
  · obtain ⟨k, rfl⟩ := Int.eq_ofNat_of_zero_le hn.le
    rw [Int.fdiv_eq_ediv_of_nonneg _ hn.le, ← Rat.floor_intCast_div_natCast]
    rfl

theorem applyUnary_int (op : UnaryOp) (x : Int64) :
    applyUnary (.int x) op = exact (.unary op) (op.exact x.toInt) := by
  cases op with
  | negate => exact congrArg (ofWord _) (Word.checkedNeg_eq x)
  | absolute => exact congrArg (ofWord _) (Word.checkedAbs_eq x)
  | complement => exact (exact_eq_ok_iff.mpr (Word.toInt_not x)).symm

/-- If there is an exact result, the answer is that. -/
theorem applyInt_eq {op : BinaryOp} (hmod : op ≠ .mod) {x y : Int64} {n : Int}
    (h : op.exactResult? x.toInt y.toInt = some n) (hshift : op.IsShift → y.toInt < 64) :
    applyInt op x y = exact (.binary op) n := by
  cases op <;>
    simp only [BinaryOp.exactResult?, Option.ite_none_right_eq_some, Option.some.injEq] at h
  case add => exact h ▸ congrArg (ofWord _) (Word.checkedAdd_eq x y)
  case sub => exact h ▸ congrArg (ofWord _) (Word.checkedSub_eq x y)
  case mul => exact h ▸ congrArg (ofWord _) (Word.checkedMul_eq x y)
  case div =>
    obtain ⟨⟨hy, hdvd⟩, rfl⟩ := h
    exact applyInt_div_of_dvd hy hdvd
  case floorDiv =>
    obtain ⟨hy, rfl⟩ := h
    rw [floor_div_eq_fdiv, applyInt_floorDiv hy]
  case mod => exact absurd rfl hmod
  case pow =>
    obtain ⟨hy, rfl⟩ := h
    exact applyInt_pow hy
  case and => exact (exact_eq_ok_iff.mpr ((Word.toInt_and x y).trans h)).symm
  case or => exact (exact_eq_ok_iff.mpr ((Word.toInt_or x y).trans h)).symm
  case xor => exact (exact_eq_ok_iff.mpr ((Word.toInt_xor x y).trans h)).symm
  case shiftLeft =>
    obtain ⟨hy, rfl⟩ := h
    exact applyInt_shiftLeft hy (hshift (.inl rfl))
  case shiftRight =>
    obtain ⟨hy, rfl⟩ := h
    have hfloor : ⌊(x.toInt / 2 ^ y.toInt.toNat : ℚ)⌋ = x.toInt / 2 ^ y.toInt.toNat := by
      have h := Rat.floor_intCast_div_natCast x.toInt (2 ^ y.toInt.toNat)
      push_cast at h
      exact h
    rw [hfloor, applyInt_shiftRight hy (hshift (.inr rfl))]

/-- A remainder is formed exactly or not at all. -/
theorem applyInt_mod {x y : Int64} {n : Int}
    (h : BinaryOp.exactResult? .mod x.toInt y.toInt = some n) :
    applyInt .mod x y = exact (.binary .mod) n ∨
      applyInt .mod x y = .error (.overflow (.binary .mod)) := by
  simp only [BinaryOp.exactResult?, Option.ite_none_right_eq_some, Option.some.injEq] at h
  obtain ⟨hy, rfl⟩ := h
  rw [applyInt_mod_eq hy, floor_div_eq_fdiv, ← Int.fmod_def]
  split
  next => exact .inr rfl
  next => exact .inl rfl

/-- The answer is neither an integer nor an overflow. -/
def OffIntegers : Except EvalError Number → Prop
  | .ok (.int _) => False
  | .ok (.real _) => True
  | .error (.overflow _) => False
  | .error _ => True

theorem offIntegers_finite (x : Float) : OffIntegers (finite x) := by
  unfold finite
  split <;> trivial

theorem offIntegers_applyReal (op : BinaryOp) (x y : Float) : OffIntegers (applyReal op x y) := by
  cases op <;> simp only [applyReal]
  case add | sub | mul | pow => exact offIntegers_finite _
  case div | floorDiv | mod =>
    split
    · trivial
    · exact offIntegers_finite _
  case and | or | xor | shiftLeft | shiftRight => trivial

/-- Without an exact result there is no integer. -/
theorem offIntegers_applyInt {op : BinaryOp} {x y : Int64}
    (h : op.exactResult? x.toInt y.toInt = none) : OffIntegers (applyInt op x y) := by
  cases op <;> simp only [BinaryOp.exactResult?, ite_eq_right_iff, reduceCtorEq, imp_false] at h
  case div =>
    by_cases hy : y.toInt = 0
    · simp only [applyInt]
      rw [if_pos (Word.toInt_eq_zero_iff.mp hy)]
      trivial
    · rw [applyInt_div_of_not_dvd hy fun hdvd => h ⟨hy, hdvd⟩]
      exact offIntegers_applyReal _ _ _
  case floorDiv | mod =>
    simp only [applyInt]
    rw [if_pos (Word.toInt_eq_zero_iff.mp (not_not.mp h))]
    trivial
  case pow =>
    simp only [applyInt]
    rw [if_pos (Word.toInt_neg_iff.mp (not_le.mp h))]
    exact offIntegers_applyReal _ _ _
  case shiftLeft =>
    rw [applyInt_shift_of_not (.inl rfl) fun hy => h hy.1]
    trivial
  case shiftRight =>
    rw [applyInt_shift_of_not (.inr rfl) fun hy => h hy.1]
    trivial

/-- A shift that leaves nothing of a word is refused. -/
theorem offIntegers_applyInt_of_le {op : BinaryOp} (hop : op.IsShift) {x y : Int64}
    (hy : 64 ≤ y.toInt) : OffIntegers (applyInt op x y) := by
  rw [applyInt_shift_of_not hop fun h => not_lt.mpr hy h.2]
  trivial

/-- What stays among the integers has an exact result, and answers with it.  Only a remainder may
overflow in spite of it. -/
theorem applyInt_cases {op : BinaryOp} {x y : Int64} (h : ¬ OffIntegers (applyInt op x y)) :
    ∃ n, op.exactResult? x.toInt y.toInt = some n ∧
      (applyInt op x y = exact (.binary op) n ∨
        op = .mod ∧ applyInt op x y = .error (.overflow (.binary op))) := by
  cases hn : op.exactResult? x.toInt y.toInt with
  | none => exact absurd (offIntegers_applyInt hn) h
  | some n =>
    refine ⟨n, rfl, ?_⟩
    by_cases hmod : op = .mod
    · subst hmod
      exact (applyInt_mod hn).imp_right fun heq => ⟨rfl, heq⟩
    · refine .inl (applyInt_eq hmod hn fun hop => not_le.mp fun hy => h ?_)
      exact offIntegers_applyInt_of_le hop hy

/-- An integer answer to an operation on integers is its exact result. -/
theorem exactResult?_of_applyInt {op : BinaryOp} {x y w : Int64}
    (h : applyInt op x y = .ok (.int w)) : op.exactResult? x.toInt y.toInt = some w.toInt := by
  obtain ⟨n, hn, heq | ⟨-, heq⟩⟩ := applyInt_cases fun hoff => by rwa [h] at hoff
  · rw [hn, exact_eq_ok_iff.mp (heq.symm.trans h)]
  · cases heq.symm.trans h

/-- An overflow is that of the operation, and except for the remainder its exact result is out
of range. -/
theorem not_inRange_of_applyInt {op : BinaryOp} {op' : Operation} {x y : Int64}
    (h : applyInt op x y = .error (.overflow op')) :
    op' = .binary op ∧
      (op ≠ .mod → ∃ n, op.exactResult? x.toInt y.toInt = some n ∧ ¬ InRange n) := by
  obtain ⟨n, hn, heq | ⟨hmod, heq⟩⟩ := applyInt_cases fun hoff => by rwa [h] at hoff
  · obtain ⟨hop, hrange⟩ := exact_eq_overflow (heq.symm.trans h)
    exact ⟨hop, fun _ => ⟨n, hn, hrange⟩⟩
  · cases heq.symm.trans h
    exact ⟨rfl, fun hne => absurd hmod hne⟩

/-- An operation with a real among its operands leaves the integers. -/
theorem exists_int_of_apply {op : BinaryOp} {a b : Number} (h : ¬ OffIntegers (apply op a b)) :
    ∃ x y, a = .int x ∧ b = .int y := by
  cases a with
  | int x =>
    cases b with
    | int y => exact ⟨x, y, rfl, rfl⟩
    | real y => exact absurd (offIntegers_applyReal _ _ _) h
  | real x => exact absurd (offIntegers_applyReal _ _ _) h

theorem exists_int_of_applyUnary {op : UnaryOp} {a : Number}
    (h : ¬ OffIntegers (applyUnary a op)) : ∃ x, a = .int x := by
  cases a with
  | int x => exact ⟨x, rfl⟩
  | real x =>
    refine absurd ?_ h
    cases op <;> trivial

end Number

/-! ## Expressions -/

namespace Expr

open Number (InRange exact_of_inRange exact_of_not_inRange)

variable {bindings : Dict Number}

/-- The expression is no remainder, and no shift by 64 or more. -/
def IsPlain (bindings : Dict Number) (e : Expr) : Prop :=
  ∀ op left right, e = .binary op left right →
    op ≠ .mod ∧ (op.IsShift → ∀ n, right.exactValue? bindings = some n → n < 64)

/-- The expression applies the operation to operands that have been evaluated exactly, and the
exact result is out of range. -/
inductive Overflows (bindings : Dict Number) : Operation → Expr → Prop where
  | unary {op : UnaryOp} {operand : Expr} {x : Int64} :
      operand.eval bindings = .ok (.int x) → operand.exactValue? bindings = some x.toInt →
      ¬ InRange (op.exact x.toInt) → Overflows bindings (.unary op) (.unary op operand)
  | binary {op : BinaryOp} {left right : Expr} {x y : Int64} {n : Int} :
      left.eval bindings = .ok (.int x) → left.exactValue? bindings = some x.toInt →
      right.eval bindings = .ok (.int y) → right.exactValue? bindings = some y.toInt →
      op.exactResult? x.toInt y.toInt = some n → ¬ InRange n →
      Overflows bindings (.binary op) (.binary op left right)

theorem mem_parts_self (e : Expr) : e ∈ e.parts := by
  cases e <;> exact List.mem_cons_self

/-- An answer that stays among the integers comes from an integer operand, or else it is the fault
of the operand. -/
theorem eval_unary_cases {op : UnaryOp} {operand : Expr} {r : Except EvalError Number}
    (h : (Expr.unary op operand).eval bindings = r) (hr : ¬ Number.OffIntegers r) :
    (∃ x, operand.eval bindings = .ok (.int x) ∧
        Number.exact (.unary op) (op.exact x.toInt) = r) ∨
      ∃ err, operand.eval bindings = .error err ∧ r = .error err := by
  simp only [eval] at h
  cases hoperand : operand.eval bindings with
  | error err =>
    rw [hoperand] at h
    exact .inr ⟨err, rfl, h.symm⟩
  | ok a =>
    rw [hoperand] at h
    obtain ⟨x, rfl⟩ := Number.exists_int_of_applyUnary (fun hoff => hr (h ▸ hoff))
    exact .inl ⟨x, rfl, (Number.applyUnary_int op x).symm.trans h⟩

theorem eval_binary_cases {op : BinaryOp} {left right : Expr} {r : Except EvalError Number}
    (h : (Expr.binary op left right).eval bindings = r) (hr : ¬ Number.OffIntegers r) :
    (∃ x y, left.eval bindings = .ok (.int x) ∧ right.eval bindings = .ok (.int y) ∧
        Number.applyInt op x y = r) ∨
      (∃ err, left.eval bindings = .error err ∧ r = .error err) ∨
      ∃ err, right.eval bindings = .error err ∧ r = .error err := by
  simp only [eval] at h
  cases hleft : left.eval bindings with
  | error err =>
    rw [hleft] at h
    exact .inr (.inl ⟨err, rfl, h.symm⟩)
  | ok a =>
    cases hright : right.eval bindings with
    | error err =>
      rw [hleft, hright] at h
      exact .inr (.inr ⟨err, rfl, h.symm⟩)
    | ok b =>
      rw [hleft, hright] at h
      obtain ⟨x, y, rfl, rfl⟩ := Number.exists_int_of_apply (fun hoff => hr (h ▸ hoff))
      exact .inl ⟨x, y, rfl, rfl, h⟩

/-- What is evaluated to an integer has an exact value, which is that integer, and is built on
integers alone. -/
theorem exactValue?_of_eval {e : Expr} {w : Int64} (h : e.eval bindings = .ok (.int w)) :
    e.exactValue? bindings = some w.toInt ∧ e.OnIntegers bindings := by
  induction e generalizing w with
  | number value =>
    obtain rfl := Except.ok.inj h
    refine ⟨rfl, fun v hv => ?_, fun name hname => ?_⟩
    · obtain rfl := Expr.number.inj (List.mem_singleton.mp hv)
      exact ⟨w, rfl⟩
    · cases List.mem_singleton.mp hname
  | «variable» name =>
    simp only [eval] at h
    cases hget : bindings.get? name with
    | none =>
      rw [hget] at h
      cases h
    | some value =>
      rw [hget] at h
      obtain rfl := Except.ok.inj h
      refine ⟨by simp only [exactValue?, hget], fun v hv => ?_, fun other hother => ?_⟩
      · cases List.mem_singleton.mp hv
      · obtain rfl := Expr.variable.inj (List.mem_singleton.mp hother)
        exact ⟨w, hget⟩
  | unary op operand ih =>
    obtain ⟨x, hx, hw⟩ | ⟨err, -, ⟨⟩⟩ := eval_unary_cases h id
    obtain ⟨hexact, hon⟩ := ih hx
    refine ⟨?_, fun v hv => ?_, fun name hname => ?_⟩
    · rw [exactValue?, hexact, Option.map_some, Number.exact_eq_ok_iff.mp hw]
    · exact hon.1 v ((List.mem_cons.mp hv).resolve_left Expr.noConfusion)
    · exact hon.2 name ((List.mem_cons.mp hname).resolve_left Expr.noConfusion)
  | binary op left right ihl ihr =>
    obtain ⟨x, y, hx, hy, hw⟩ | ⟨err, -, ⟨⟩⟩ | ⟨err, -, ⟨⟩⟩ := eval_binary_cases h id
    obtain ⟨hleft, honLeft⟩ := ihl hx
    obtain ⟨hright, honRight⟩ := ihr hy
    refine ⟨?_, fun v hv => ?_, fun name hname => ?_⟩
    · rw [exactValue?, hleft, hright]
      exact Number.exactResult?_of_applyInt hw
    · have hv := (List.mem_cons.mp hv).resolve_left Expr.noConfusion
      exact (List.mem_append.mp hv).elim (honLeft.1 v) (honRight.1 v)
    · have hname := (List.mem_cons.mp hname).resolve_left Expr.noConfusion
      exact (List.mem_append.mp hname).elim (honLeft.2 name) (honRight.2 name)

/-- An application whose exact result is in range is evaluated to it. -/
theorem eval_of_inRange {op : BinaryOp} {left right : Expr} {x y : Int64} {n : Int}
    (hx : left.eval bindings = .ok (.int x)) (hy : right.eval bindings = .ok (.int y))
    (hmod : op ≠ .mod) (hshift : op.IsShift → y.toInt < 64)
    (hn : op.exactResult? x.toInt y.toInt = some n) :
    (Expr.binary op left right).eval bindings = Number.exact (.binary op) n := by
  simp only [eval, hx, hy]
  exact Number.applyInt_eq hmod hn hshift

/-- An expression whose parts all have exact values in range is evaluated to its own. -/
theorem exists_eval {e : Expr}
    (h : ∀ part ∈ e.parts, part.IsPlain bindings ∧
      ∃ n, part.exactValue? bindings = some n ∧ InRange n) :
    ∃ w, e.eval bindings = .ok (.int w) ∧ e.exactValue? bindings = some w.toInt := by
  induction e with
  | number value =>
    obtain ⟨-, n, hn, -⟩ := h _ (mem_parts_self _)
    cases value with
    | int w => exact ⟨w, rfl, rfl⟩
    | real x => cases hn
  | «variable» name =>
    obtain ⟨-, n, hn, -⟩ := h _ (mem_parts_self _)
    simp only [exactValue?] at hn
    split at hn
    next w hget => exact ⟨w, by simp only [eval, hget], by simp only [exactValue?, hget]⟩
    next => cases hn
  | unary op operand ih =>
    obtain ⟨x, hx, hexact⟩ := ih fun part hpart => h part (List.mem_cons_of_mem _ hpart)
    obtain ⟨-, n, hn, hrange⟩ := h _ (mem_parts_self _)
    rw [exactValue?, hexact, Option.map_some, Option.some.injEq] at hn
    obtain ⟨w, hw, hwn⟩ := exact_of_inRange (.unary op) hrange
    refine ⟨w, ?_, ?_⟩
    · simp only [eval, hx]
      rw [Number.applyUnary_int, hn, hw]
    · rw [exactValue?, hexact, Option.map_some, hn, hwn]
  | binary op left right ihl ihr =>
    obtain ⟨x, hx, hleft⟩ := ihl fun part hpart =>
      h part (List.mem_cons_of_mem _ (List.mem_append_left _ hpart))
    obtain ⟨y, hy, hright⟩ := ihr fun part hpart =>
      h part (List.mem_cons_of_mem _ (List.mem_append_right _ hpart))
    obtain ⟨hplain, n, hn, hrange⟩ := h _ (mem_parts_self _)
    obtain ⟨hmod, hshift⟩ := hplain op left right rfl
    have hvalue := hn
    rw [exactValue?, hleft, hright] at hn
    obtain ⟨w, hw, hwn⟩ := exact_of_inRange (.binary op) hrange
    refine ⟨w, ?_, by rw [hvalue, hwn]⟩
    rw [eval_of_inRange hx hy hmod (fun hop => hshift hop _ hright) hn, hw]

/-- An overflow other than that of a remainder has a part that overflows. -/
theorem exists_overflows {e : Expr} {op : Operation} (hop : op ≠ .binary .mod)
    (h : e.eval bindings = .error (.overflow op)) :
    ∃ part ∈ e.parts, Overflows bindings op part := by
  induction e with
  | number value => cases h
  | «variable» name =>
    simp only [eval] at h
    split at h <;> cases h
  | unary op' operand ih =>
    rcases eval_unary_cases h id with ⟨x, hx, hover⟩ | ⟨err, herr, heq⟩
    · obtain ⟨rfl, hrange⟩ := Number.exact_eq_overflow hover
      exact ⟨_, mem_parts_self _, .unary hx (exactValue?_of_eval hx).1 hrange⟩
    · obtain ⟨part, hpart, hover⟩ := ih (herr.trans heq.symm)
      exact ⟨part, List.mem_cons_of_mem _ hpart, hover⟩
  | binary op' left right ihl ihr =>
    rcases eval_binary_cases h id with ⟨x, y, hx, hy, hover⟩ | ⟨err, herr, heq⟩ | ⟨err, herr, heq⟩
    · obtain ⟨rfl, hresult⟩ := Number.not_inRange_of_applyInt hover
      obtain ⟨n, hn, hrange⟩ := hresult fun hmod => hop (congrArg Operation.binary hmod)
      exact ⟨_, mem_parts_self _,
        .binary hx (exactValue?_of_eval hx).1 hy (exactValue?_of_eval hy).1 hn hrange⟩
    · obtain ⟨part, hpart, hover⟩ := ihl (herr.trans heq.symm)
      exact ⟨part, List.mem_cons_of_mem _ (List.mem_append_left _ hpart), hover⟩
    · obtain ⟨part, hpart, hover⟩ := ihr (herr.trans heq.symm)
      exact ⟨part, List.mem_cons_of_mem _ (List.mem_append_right _ hpart), hover⟩

/-- What overflows is reported as an overflow. -/
theorem eval_of_overflows {e : Expr} {op : Operation} (hplain : e.IsPlain bindings)
    (h : Overflows bindings op e) : e.eval bindings = .error (.overflow op) := by
  cases h with
  | unary hx _ hrange =>
    simp only [eval, hx]
    rw [Number.applyUnary_int, exact_of_not_inRange hrange]
  | binary hx _ hy hright hn hrange =>
    obtain ⟨hmod, hshift⟩ := hplain _ _ _ rfl
    rw [eval_of_inRange hx hy hmod (fun hop => hshift hop _ hright) hn,
      exact_of_not_inRange hrange]

/-- **Integers are exact.**

* An integer answer is the exact value, and every literal and variable is an integer.
* An expression without remainders and without shifts by 64 or more, all of whose parts have
  exact values in range, is evaluated to its exact value.
* An overflow, other than that of a remainder, is reported only if the expression has a part
  that applies the operation to exact operands with an exact result out of range.
* Such a part, if it is no remainder and no shift by 64 or more, is reported as an overflow. -/
theorem integers_exact (bindings : Dict Number) (e : Expr) :
    (∀ w, e.eval bindings = .ok (.int w) →
      e.exactValue? bindings = some w.toInt ∧ e.OnIntegers bindings) ∧
    ((∀ part ∈ e.parts, part.IsPlain bindings ∧
        ∃ n, part.exactValue? bindings = some n ∧ InRange n) →
      ∃ w, e.eval bindings = .ok (.int w) ∧ e.exactValue? bindings = some w.toInt) ∧
    (∀ op, op ≠ .binary .mod → e.eval bindings = .error (.overflow op) →
      ∃ part ∈ e.parts, Overflows bindings op part) ∧
    ∀ op, e.IsPlain bindings → Overflows bindings op e →
      e.eval bindings = .error (.overflow op) :=
  ⟨fun _ => exactValue?_of_eval, exists_eval, fun _ => exists_overflows, fun _ => eval_of_overflows⟩

/-- A quotient is rounded down, here to -4, and the smallest word has no opposite. -/
theorem integers_exact_minValue :
    (∃ w, (Expr.binary .floorDiv (.number (.int 7)) (.number (.int (-2)))).eval {} =
        .ok (.int w) ∧ w.toInt = -4) ∧
      (Expr.unary .negate (.number (.int Int64.minValue))).eval {} =
        .error (.overflow (.unary .negate)) := by
  have hquotient : ⌊((7 : Int64).toInt / (-2 : Int64).toInt : ℚ)⌋ = -4 := by
    rw [Number.floor_div_eq_fdiv]
    decide
  have hfour : (Expr.binary .floorDiv (.number (.int 7)) (.number (.int (-2)))).exactValue? {} =
      some (-4) := by
    simp only [exactValue?, Option.bind_some, BinaryOp.exactResult?, hquotient]
    rfl
  refine ⟨?_, (integers_exact {} _).2.2.2 _ nofun (.unary rfl rfl (by decide))⟩
  suffices hparts : ∀ part ∈ (Expr.binary .floorDiv (.number (.int 7)) (.number (.int (-2)))).parts,
      part.IsPlain {} ∧ ∃ n, part.exactValue? {} = some n ∧ InRange n by
    obtain ⟨w, hw, hvalue⟩ := (integers_exact {} _).2.1 hparts
    exact ⟨w, hw, Option.some.inj (hvalue.symm.trans hfour)⟩
  intro part hpart
  simp only [parts, List.mem_cons, List.mem_append, List.not_mem_nil, or_false] at hpart
  rcases hpart with rfl | rfl | rfl
  · refine ⟨?_, -4, hfour, by decide⟩
    rintro _ _ _ ⟨⟩
    exact ⟨nofun, fun hop => by rcases hop with hop | hop <;> cases hop⟩
  · exact ⟨nofun, 7, rfl, by decide⟩
  · exact ⟨nofun, -2, rfl, by decide⟩

end Expr

end Abacus
