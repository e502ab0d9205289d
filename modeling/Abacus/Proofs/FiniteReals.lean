import Abacus.Environment
import Abacus.Proofs.FloatWord
import Abacus.Proofs.StatementParsing

/-!
# Calculating stays finite

Doubles have words for infinities and for undefined results, and floats run into them
easily.  The calculator keeps them out where reals come from: a literal and the result of
an operation are checked for being finite, and changing a sign cannot make a finite real
infinite.  So running a statement keeps the values of an environment finite, whether they
are in use or kept in a slot (`Environment.IsFinite.execute`).
-/

namespace Abacus

/-- The number is an integer or a finite real. -/
def Number.IsFinite : Number → Prop
  | .int _ => True
  | .real x => x.isFinite

/-- All values in the environment are finite. -/
structure Environment.IsFinite (env : Environment) : Prop where
  bindings : env.bindings.All Number.IsFinite
  slots : env.slots.All (Dict.All Number.IsFinite)

/-! ## Operations -/

namespace Number

theorem isFinite_of_finite {x : Float} {a : Number} (h : finite x = .ok a) : a.IsFinite := by
  unfold finite at h
  split at h
  next hx =>
    obtain rfl := Except.ok.inj h
    show (Double.ofFloat x).isFinite
    rw [Double.isFinite_ofFloat, hx]
  next => cases h

theorem isFinite_of_ofWord {op : Operation} {w : Option Int64} {a : Number}
    (h : ofWord op w = .ok a) : a.IsFinite := by
  cases w with
  | some w =>
    obtain rfl := Except.ok.inj h
    trivial
  | none => cases h

theorem isFinite_of_applyReal {op : BinaryOp} {x y : Float} {a : Number}
    (h : applyReal op x y = .ok a) : a.IsFinite := by
  cases op <;> simp only [applyReal] at h
  case add | sub | mul | pow => exact isFinite_of_finite h
  case div | floorDiv | mod =>
    split at h
    · cases h
    · exact isFinite_of_finite h
  case and | or | xor | shiftLeft | shiftRight => cases h

theorem isFinite_of_applyInt {op : BinaryOp} {x y : Int64} {a : Number}
    (h : applyInt op x y = .ok a) : a.IsFinite := by
  cases op <;> simp only [applyInt] at h
  case add | sub | mul => exact isFinite_of_ofWord h
  case div =>
    split at h
    · cases h
    · split at h
      · cases h
      · split at h
        · exact isFinite_of_applyReal h
        · exact isFinite_of_ofWord h
  case floorDiv | mod =>
    split at h
    · cases h
    · exact isFinite_of_ofWord h
  case pow =>
    split at h
    · exact isFinite_of_applyReal h
    · exact isFinite_of_ofWord h
  case and | or | xor =>
    obtain rfl := Except.ok.inj h
    trivial
  case shiftLeft =>
    split at h
    · exact isFinite_of_ofWord h
    · cases h
  case shiftRight =>
    split at h
    · obtain rfl := Except.ok.inj h
      trivial
    · cases h

/-- An operation answers with a finite value, whatever it is given. -/
theorem isFinite_of_apply {op : BinaryOp} {a b c : Number} (h : apply op a b = .ok c) :
    c.IsFinite := by
  unfold apply at h
  split at h
  · exact isFinite_of_applyInt h
  · exact isFinite_of_applyReal h

/-- A change of sign makes nothing infinite. -/
theorem isFinite_of_applyUnary {op : UnaryOp} {a b : Number} (ha : a.IsFinite)
    (h : a.applyUnary op = .ok b) : b.IsFinite := by
  cases op <;> cases a <;> simp only [applyUnary] at h
  case negate.int | absolute.int => exact isFinite_of_ofWord h
  case negate.real x =>
    obtain rfl := Except.ok.inj h
    exact (Double.isFinite_negate x).trans ha
  case complement.int =>
    obtain rfl := Except.ok.inj h
    trivial
  case complement.real => cases h
  case absolute.real x =>
    obtain rfl := Except.ok.inj h
    exact (Double.isFinite_abs x).trans ha

end Number

/-! ## Expressions and statements -/

namespace Literal

theorem isFinite_of_real? {whole fraction : List Char} {a : Number}
    (h : real? whole fraction = some a) : a.IsFinite := by
  obtain ⟨n, -, h⟩ := Option.bind_eq_some_iff.mp h
  simp only at h
  split at h
  next hx =>
    obtain rfl := Option.some.inj h
    exact (Double.isFinite_ofFloat _).trans hx
  next => cases h

theorem isFinite_of_word? {base : Nat} {cs : List Char} {a : Number} (h : word? base cs = some a) :
    a.IsFinite := by
  obtain ⟨n, -, rfl⟩ := Option.map_eq_some_iff.mp h
  trivial

theorem isFinite_of_integer? {cs : List Char} {a : Number} (h : integer? cs = some a) :
    a.IsFinite := by
  obtain ⟨n, -, h⟩ := Option.bind_eq_some_iff.mp h
  obtain ⟨w, -, rfl⟩ := Option.map_eq_some_iff.mp h
  trivial

theorem isFinite_of_readPlain? {cs : List Char} {a : Number} (h : readPlain? cs = some a) :
    a.IsFinite := by
  unfold readPlain? at h
  split at h
  case h_5 =>
    split at h
    · split at h
      · exact isFinite_of_word? h
      · exact isFinite_of_integer? h
    · obtain ⟨p, -, h⟩ := Option.bind_eq_some_iff.mp h
      exact isFinite_of_real? h
  all_goals exact isFinite_of_word? h

end Literal

namespace Expr

/-- All literals in the expression are finite. -/
def IsFinite : Expr → Prop
  | .number value => value.IsFinite
  | .variable _ => True
  | .unary _ operand => operand.IsFinite
  | .binary _ left right => left.IsFinite ∧ right.IsFinite

/-- **Finite literals and variables give finite values.** -/
theorem isFinite_of_eval {bindings : Dict Number} (hb : bindings.All Number.IsFinite) {e : Expr}
    (he : e.IsFinite) {a : Number} (h : e.eval bindings = .ok a) : a.IsFinite := by
  induction e generalizing a with
  | number value =>
    obtain rfl := Except.ok.inj h
    exact he
  | «variable» name =>
    simp only [eval] at h
    split at h
    next value hvalue =>
      obtain rfl := Except.ok.inj h
      exact hb name value hvalue
    next => cases h
  | unary op operand ih =>
    simp only [eval] at h
    split at h
    next b hb' => exact Number.isFinite_of_applyUnary (ih he hb') h
    next => cases h
  | binary op left right _ _ =>
    simp only [eval] at h
    split at h
    next =>
      split at h
      next => exact Number.isFinite_of_apply h
      next => cases h
    next => cases h

end Expr

/-- All literals in the statement are finite. -/
def Statement.IsFinite : Statement → Prop
  | .expr e => e.IsFinite
  | .assign _ e => e.IsFinite
  | _ => True

namespace Grammar

theorem isFinite_numberOf (t : Token) : (numberOf t).IsFinite := by
  unfold numberOf
  cases h : Literal.read? t.text with
  | none => trivial
  | some a => exact Literal.isFinite_of_readPlain? h

/-- The trees that the grammar gives to tokens have finite literals. -/
theorem Derives.isFinite {c : Category} {ts : List Token} {e : Expr} (h : Derives c ts e) :
    e.IsFinite := by
  induction h with
  | next _ ih | plus _ _ ih | group _ _ _ ih => exact ih
  | binary _ _ _ iha ihb | pow _ _ _ iha ihb => exact ⟨iha, ihb⟩
  | negate _ _ ih | complement _ _ ih | absolute _ _ _ _ ih => exact ih
  | literal _ => exact isFinite_numberOf _
  | name _ => trivial

/-- So have the statements. -/
theorem Spells.isFinite {ts : List Token} {s : Statement} (h : Spells ts s) : s.IsFinite := by
  cases h with
  | assign _ _ he | expr he => exact he.isFinite
  | clear | clearArgument | save | load | output => trivial

end Grammar

namespace Statement

theorem isFinite_of_parse {ts : List Token} {s : Statement} (h : parse ts = .ok s) :
    s.IsFinite := by
  obtain ⟨-, hspells⟩ := spells_of_parseBody h
  exact hspells.isFinite

end Statement

namespace Environment

/-- A statement keeps all values finite. -/
theorem IsFinite.apply {env after : Environment} (henv : env.IsFinite) {s : Statement}
    (hs : s.IsFinite) {result : String} (h : env.apply s = .ok (after, result)) :
    after.IsFinite := by
  cases s <;> simp only [Environment.apply] at h
  case expr e =>
    split at h
    · obtain ⟨rfl, -⟩ := Prod.mk.inj (Except.ok.inj h)
      exact henv
    · cases h
  case assign name e =>
    split at h
    next value hvalue =>
      obtain ⟨rfl, -⟩ := Prod.mk.inj (Except.ok.inj h)
      exact ⟨henv.bindings.insert (Expr.isFinite_of_eval henv.bindings hs hvalue) name, henv.slots⟩
    next => cases h
  case clear =>
    obtain ⟨rfl, -⟩ := Prod.mk.inj (Except.ok.inj h)
    exact ⟨Dict.all_empty _, henv.slots⟩
  case save slot =>
    obtain ⟨rfl, -⟩ := Prod.mk.inj (Except.ok.inj h)
    exact ⟨henv.bindings, henv.slots.insert henv.bindings slot⟩
  case load slot =>
    split at h
    next bindings hbindings =>
      obtain ⟨rfl, -⟩ := Prod.mk.inj (Except.ok.inj h)
      exact ⟨henv.slots slot bindings hbindings, henv.slots⟩
    next => cases h
  case output radix =>
    obtain ⟨rfl, -⟩ := Prod.mk.inj (Except.ok.inj h)
    exact ⟨henv.bindings, henv.slots⟩

theorem IsFinite.execute {env : Environment} (henv : env.IsFinite) (ts : List Token)
    (persist : Bool) : (env.execute ts persist).1.IsFinite := by
  unfold Environment.execute
  split
  next after result hrun =>
    unfold Environment.run at hrun
    split at hrun
    next s hs =>
      have hafter := henv.apply (Statement.isFinite_of_parse hs) hrun
      cases persist
      · exact henv
      · exact hafter
    next => cases hrun
  next => exact henv

end Environment

end Abacus
