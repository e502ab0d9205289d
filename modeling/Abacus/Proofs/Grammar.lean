import Abacus.Statement.Parser

/-!
# The grammar

The grammar of statements, written down as rules and not as a way of reading.

    statement := clear ["(" ")"] | (save | load | output) "(" variable ")"
               | variable "=" or | or
    or        := xor ("|" xor)*
    xor       := and ("^" and)*
    and       := shift ("&" shift)*
    shift     := sum (("<<" | ">>") sum)*
    sum       := product (("+" | "-") product)*
    product   := unary (("*" | "/" | "//" | "%") unary)*
    unary     := ("-" | "+" | "~") unary | power
    power     := atom ["**" unary]
    atom      := number | variable | "(" or ")" | abs "(" or ")"

`Derives c ts e` says that the tokens `ts` are of category `c` and that `e` is their
tree.  The starred rules associate to the left, so in the rule `binary` the left operand
is of the category itself and the right one of the next.

## Texts

The grammar is about the kinds of tokens.  A number whose text is no literal is a number
all the same; it stands for zero in the tree.  That a parser refuses it is a second
condition (`Readable`), independent of the first.
-/

namespace Abacus.Grammar

/-- The categories of expressions, weakest first. -/
inductive Category where
  | or
  | xor
  | and
  | shift
  | sum
  | product
  | unary
  | power
  | atom
  deriving DecidableEq

namespace Category

/-- The category of the operands of a category. -/
def next : Category → Category
  | or => xor
  | xor => and
  | and => shift
  | shift => sum
  | sum => product
  | product => unary
  | unary => power
  | power => atom
  | atom => atom

/-- The operators that join any number of operands, with the tokens they are written
with. -/
def operators : Category → List (Token.Kind × BinaryOp)
  | or => [(.or, .or)]
  | xor => [(.xor, .xor)]
  | and => [(.and, .and)]
  | shift => [(.shiftLeft, .shiftLeft), (.shiftRight, .shiftRight)]
  | sum => [(.add, .add), (.sub, .sub)]
  | product => [(.mul, .mul), (.div, .div), (.floorDiv, .floorDiv), (.mod, .mod)]
  | unary | power | atom => []

/-- The place of a category in the order of the rules. -/
def rank : Category → Nat
  | or => 1
  | xor => 2
  | and => 3
  | shift => 4
  | sum => 5
  | product => 6
  | unary => 7
  | power => 8
  | atom => 9

end Category

/-- What a token of kind `number` stands for. -/
def numberOf (t : Token) : Number := (Literal.read? t.text).getD (.int 0)

/-- The tokens are an expression of this category, and this is its tree. -/
inductive Derives : Category → List Token → Expr → Prop where
  | next {c ts e} : Derives c.next ts e → Derives c ts e
  | binary {c ts us a b op t} : Derives c ts a → (t.kind, op) ∈ c.operators →
      Derives c.next us b → Derives c (ts ++ t :: us) (.binary op a b)
  | negate {ts e t} : t.kind = .sub → Derives .unary ts e →
      Derives .unary (t :: ts) (.unary .negate e)
  | plus {ts e t} : t.kind = .add → Derives .unary ts e → Derives .unary (t :: ts) e
  | complement {ts e t} : t.kind = .complement → Derives .unary ts e →
      Derives .unary (t :: ts) (.unary .complement e)
  | pow {ts us a b t} : Derives .atom ts a → t.kind = .pow → Derives .unary us b →
      Derives .power (ts ++ t :: us) (.binary .pow a b)
  | literal {t} : t.kind = .number → Derives .atom [t] (.number (numberOf t))
  | name {t} : t.kind = .variable → Derives .atom [t] (.variable t.text)
  | group {ts e l r} : l.kind = .openParen → Derives .or ts e → r.kind = .closeParen →
      Derives .atom (l :: (ts ++ [r])) e
  | absolute {ts e a l r} : a.kind = .abs → l.kind = .openParen → Derives .or ts e →
      r.kind = .closeParen → Derives .atom (a :: l :: (ts ++ [r])) (.unary .absolute e)

/-- The output formats by name. -/
def formats : List (String × Radix) :=
  [("dec", .dec), ("hex", .hex), ("oct", .oct), ("bin", .bin)]

/-- The tokens are a statement, and this is the statement. -/
inductive Spells : List Token → Statement → Prop where
  | clear {t} : t.kind = .clear → Spells [t] .clear
  | clearArgument {t l r} : t.kind = .clear → l.kind = .openParen → r.kind = .closeParen →
      Spells [t, l, r] .clear
  | save {t l v r} : t.kind = .save → l.kind = .openParen → v.kind = .variable →
      r.kind = .closeParen → Spells [t, l, v, r] (.save v.text)
  | load {t l v r} : t.kind = .load → l.kind = .openParen → v.kind = .variable →
      r.kind = .closeParen → Spells [t, l, v, r] (.load v.text)
  | output {t l v r radix} : t.kind = .output → l.kind = .openParen → v.kind = .variable →
      (v.text, radix) ∈ formats → r.kind = .closeParen → Spells [t, l, v, r] (.output radix)
  | assign {v t ts e} : v.kind = .variable → t.kind = .assign → Derives .or ts e →
      Spells (v :: t :: ts) (.assign v.text e)
  | expr {ts e} : Derives .or ts e → Spells ts (.expr e)

/-- Every number among the tokens is written as a literal. -/
def Readable (ts : List Token) : Prop :=
  ∀ t ∈ ts, t.kind = .number → (Literal.read? t.text).isSome

/-! ## Categories -/

/-- A category contains all stronger ones. -/
theorem Derives.weaken {c d : Category} {ts : List Token} {e : Expr} (h : Derives d ts e)
    (hrank : c.rank ≤ d.rank) : Derives c ts e := by
  by_cases heq : c = d
  · exact heq ▸ h
  · -- The next category is still not beyond `d`.
    have hnext : c.next.rank ≤ d.rank ∧ c.rank < c.next.rank := by
      revert hrank heq
      cases c <;> cases d <;> decide
    exact .next (h.weaken hnext.1)
termination_by 9 - c.rank
decreasing_by
  have : c.next.rank ≤ 9 := by cases c <;> decide
  omega

/-- How strongly the operators of a category bind. -/
theorem strength_of_mem_operators {c : Category} {k : Token.Kind} {op : BinaryOp}
    (h : (k, op) ∈ c.operators) :
    op.leftStrength = 2 * c.rank ∧ op.rightStrength = 2 * c.rank + 1 ∧ c.rank ≤ 6 ∧
      c.next.rank = c.rank + 1 := by
  cases c <;>
    simp only [Category.operators, List.mem_cons, List.not_mem_nil, or_false, Prod.mk.injEq] at h
  case or | xor | and => obtain ⟨-, rfl⟩ := h; decide
  case shift | sum => rcases h with ⟨-, rfl⟩ | ⟨-, rfl⟩ <;> decide
  case product => rcases h with ⟨-, rfl⟩ | ⟨-, rfl⟩ | ⟨-, rfl⟩ | ⟨-, rfl⟩ <;> decide

/-- A token is read as the operator that the grammar makes of it. -/
theorem ofKind?_of_mem_operators {c : Category} {k : Token.Kind} {op : BinaryOp}
    (h : (k, op) ∈ c.operators) : BinaryOp.ofKind? k = some op := by
  cases c <;>
    simp only [Category.operators, List.mem_cons, List.not_mem_nil, or_false, Prod.mk.injEq] at h
  case or | xor | and => obtain ⟨rfl, rfl⟩ := h; rfl
  case shift | sum => rcases h with ⟨rfl, rfl⟩ | ⟨rfl, rfl⟩ <;> rfl
  case product => rcases h with ⟨rfl, rfl⟩ | ⟨rfl, rfl⟩ | ⟨rfl, rfl⟩ | ⟨rfl, rfl⟩ <;> rfl

/-- An operator is `**` or belongs to one of the categories. -/
theorem exists_mem_operators {k : Token.Kind} {op : BinaryOp} (h : BinaryOp.ofKind? k = some op) :
    (k = .pow ∧ op = .pow) ∨ ∃ c : Category, (k, op) ∈ c.operators := by
  cases k <;> simp only [BinaryOp.ofKind?, Option.some.injEq, reduceCtorEq] at h <;> subst h
  case pow => exact .inl ⟨rfl, rfl⟩
  case or => exact .inr ⟨.or, by decide⟩
  case xor => exact .inr ⟨.xor, by decide⟩
  case and => exact .inr ⟨.and, by decide⟩
  case shiftLeft | shiftRight => exact .inr ⟨.shift, by decide⟩
  case add | sub => exact .inr ⟨.sum, by decide⟩
  case mul | div | floorDiv | mod => exact .inr ⟨.product, by decide⟩

/-! ## The tokens of an expression -/

/-- The kinds of token that do not occur in expressions. -/
def foreign : List Token.Kind := [.ending, .assign, .output, .save, .load, .clear]

theorem not_mem_foreign_of_mem_operators {c : Category} {k : Token.Kind} {op : BinaryOp}
    (h : (k, op) ∈ c.operators) : k ∉ foreign := by
  have hkind := ofKind?_of_mem_operators h
  intro hk
  simp only [foreign, List.mem_cons, List.not_mem_nil, or_false] at hk
  rcases hk with rfl | rfl | rfl | rfl | rfl | rfl <;> simp [BinaryOp.ofKind?] at hkind

theorem Derives.not_mem_foreign {c : Category} {ts : List Token} {e : Expr}
    (h : Derives c ts e) : ∀ t ∈ ts, t.kind ∉ foreign := by
  induction h with
  | next _ ih => exact ih
  | binary _ hop _ iha ihb =>
    have ht := not_mem_foreign_of_mem_operators hop
    exact List.forall_mem_append.mpr ⟨iha, List.forall_mem_cons.mpr ⟨ht, ihb⟩⟩
  | pow _ ht _ iha ihb =>
    exact List.forall_mem_append.mpr ⟨iha, List.forall_mem_cons.mpr ⟨by rw [ht]; decide, ihb⟩⟩
  | negate ht _ ih | plus ht _ ih | complement ht _ ih =>
    exact List.forall_mem_cons.mpr ⟨by rw [ht]; decide, ih⟩
  | literal ht | name ht => exact List.forall_mem_singleton.mpr (by rw [ht]; decide)
  | group hl _ hr ih =>
    refine List.forall_mem_cons.mpr ⟨by rw [hl]; decide, List.forall_mem_append.mpr ⟨ih, ?_⟩⟩
    exact List.forall_mem_singleton.mpr (by rw [hr]; decide)
  | absolute ha hl _ hr ih =>
    refine List.forall_mem_cons.mpr ⟨by rw [ha]; decide, List.forall_mem_cons.mpr
      ⟨by rw [hl]; decide, List.forall_mem_append.mpr ⟨ih, ?_⟩⟩⟩
    exact List.forall_mem_singleton.mpr (by rw [hr]; decide)

end Abacus.Grammar
