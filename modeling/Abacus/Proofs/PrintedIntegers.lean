import Abacus.Number.Radix
import Abacus.Proofs.BoundNames
import Abacus.Proofs.ExactIntegers
import Abacus.Proofs.LiteralForms
import Abacus.Proofs.WrittenNumbers

/-!
# Printed integers read back

An integer is printed as a magnitude, with a sign in front if it is negative.  In every format the
magnitude is a literal (`read?_magnitude`) and a token of its own (`tokensFrom_magnitude`), so that
what is printed is an expression: a literal or the negative of one.

Behind a mark a literal spells out a word, and a word has room for twice as many magnitudes as there
are integers.  The least integer shows the difference.  Its magnitude `2 ^ 63` is no integer, so it
is no decimal literal.  Behind a mark it is the word of the least integer itself, and the negative
of that is out of range.
-/

namespace Abacus

open Grammar (Derives Readable Spells numberOf)
open Text (Writes isAlphanum_of_writes writes_toDigits byteSize)

/-- The text is an expression, and this is its answer whatever the variables stand for. -/
def Answers (text : String) (answer : Except EvalError Number) : Prop :=
  ∃ ts e, Token.tokenize text = .ok ts ∧ Statement.parse ts = .ok (.expr e) ∧
    ∀ bindings, e.eval bindings = answer

theorem Answers.unique {text : String} {a b : Except EvalError Number} (ha : Answers text a)
    (hb : Answers text b) : a = b := by
  obtain ⟨ts, e, hts, he, ha⟩ := ha
  obtain ⟨ts', e', hts', he', hb⟩ := hb
  obtain rfl : ts = ts' := Except.ok.inj (hts.symm.trans hts')
  obtain rfl : e = e' := Statement.expr.inj (Except.ok.inj (he.symm.trans he'))
  exact (ha .empty).symm.trans (hb .empty)

/-! ## Magnitudes are literals -/

namespace Radix

/-- The magnitudes below this are literals in the format. -/
def limit : Radix → Nat
  | .dec => 2 ^ 63
  | .hex | .oct | .bin => 2 ^ 64

/-- A magnitude consists of letters and digits. -/
theorem isAlphanum_of_mem_magnitude (r : Radix) (n : Nat) :
    ∀ c ∈ r.magnitude n, c.isAlphanum = true := by
  have hdigits {base : Nat} (hlow : 1 < base) (hhigh : base ≤ 16) :=
    isAlphanum_of_writes (writes_toDigits hlow hhigh n)
  cases r with
  | dec => exact hdigits (by decide) (by decide)
  | hex =>
    exact List.forall_mem_cons.mpr ⟨by decide, List.forall_mem_cons.mpr
      ⟨by decide, hdigits (by decide) (by decide)⟩⟩
  | oct =>
    rw [magnitude]
    split
    · simp
    · exact List.forall_mem_cons.mpr ⟨by decide, hdigits (by decide) (by decide)⟩
  | bin => exact List.forall_mem_cons.mpr ⟨by decide, hdigits (by decide) (by decide)⟩

/-- It starts with a digit, except that the binary mark is a letter. -/
theorem magnitude_eq_cons (r : Radix) (n : Nat) :
    ∃ c cs, r.magnitude n = c :: cs ∧ (r ≠ .bin → c.isDigit = true) := by
  cases r with
  | dec =>
    obtain ⟨c, cs, hcs⟩ := List.exists_cons_of_ne_nil (Nat.toDigits_ne_nil (b := 10) (n := n))
    refine ⟨c, cs, hcs, fun _ => ?_⟩
    exact Nat.isDigit_of_mem_toDigits (by decide) le_rfl (hcs ▸ List.mem_cons_self ..)
  | hex => exact ⟨'0', _, rfl, fun _ => rfl⟩
  | oct =>
    rw [magnitude]
    split
    · exact ⟨'0', _, rfl, fun _ => rfl⟩
    · exact ⟨'0', _, rfl, fun _ => rfl⟩
  | bin => exact ⟨'b', _, rfl, fun h => absurd rfl h⟩

theorem filter_magnitude (r : Radix) (n : Nat) :
    (r.magnitude n).filter (· != '_') = r.magnitude n := by
  refine List.filter_eq_self.mpr fun c hc => ?_
  rw [bne_iff_ne]
  rintro rfl
  exact absurd (isAlphanum_of_mem_magnitude r n '_' hc) (by decide)

/-- The magnitude denotes the word with its bits. -/
theorem denotes_magnitude (r : Radix) {n : Nat} (hn : n < r.limit) :
    Literal.Denotes (r.magnitude n) (.int (Int64.ofNat n)) := by
  cases r with
  | dec =>
    refine .integer (writes_toDigits (by decide) (by decide) n) (fun d es h => ?_) hn
    exact absurd h (Json.no_leading_zero_toDigits n d es)
  | hex => exact .word "0x" (by decide) (writes_toDigits (by decide) (by decide) n) hn
  | bin => exact .word "b" (by decide) (writes_toDigits (by decide) (by decide) n) hn
  | oct =>
    by_cases hzero : n = 0
    · subst hzero
      refine .integer (writes_toDigits (by decide) (by decide) 0) (fun d es h => ?_) (by decide)
      cases h
    · rw [magnitude, if_neg hzero]
      exact .word "0" (by decide) (writes_toDigits (by decide) (by decide) n) hn

theorem read?_magnitude (r : Radix) {n : Nat} (hn : n < r.limit) :
    Literal.read? (String.ofList (r.magnitude n)) = some (.int (Int64.ofNat n)) := by
  rw [Literal.read?, String.toList_ofList, filter_magnitude]
  exact Literal.readPlain?_of_denotes (denotes_magnitude r hn)

end Radix

/-! ## Magnitudes are tokens -/

namespace Token

/-- Where a digit and what may belong to a number make up the rest of a text, it is one number, or
it is refused as one. -/
theorem tokensFrom_number {c : Char} {cs : List Char} (hc : c.isDigit = true)
    (hcs : ∀ d ∈ cs, isNumberChar d = true) (pos : Nat) :
    tokensFrom pos (c :: cs) =
      if (Literal.read? (String.ofList (c :: cs))).isSome then
        .ok [⟨.number, pos, String.ofList (c :: cs)⟩, ⟨.ending, pos + byteSize (c :: cs), ""⟩]
      else .error (.invalidNumber (String.ofList (c :: cs)) pos) := by
  have hblank : Text.isBlank c = false := by
    rw [Bool.eq_false_iff]
    intro hblank
    rw [isDigit_of_isBlank hblank] at hc
    cases hc
  have hstarts : startsNumber c cs = true := by rw [startsNumber, hc, Bool.true_or]
  have hall : cs.takeWhile isNumberChar = cs := List.takeWhile_eq_self_iff.mpr hcs
  rw [tokensFrom, hblank, if_neg Bool.false_ne_true, lexeme, hstarts, if_pos rfl, hall]
  dsimp only
  by_cases hread : (Literal.read? (String.ofList (c :: cs))).isSome = true
  · rw [if_pos hread, if_pos hread]
    simp [tokensFrom]
  · rw [if_neg hread, if_neg hread]

/-- Binary digits behind their mark look like a word, and are a number all the same. -/
theorem isBinaryWord_magnitude {n : Nat} (hn : n < Radix.bin.limit) :
    isBinaryWord (Radix.bin.magnitude n) = true := by
  have hread := Radix.read?_magnitude .bin hn
  have hdigits : (Nat.toDigits 2 n).all fun c => c == '0' || c == '1' || c == '_' := by
    refine List.all_eq_true.mpr fun c hc => ?_
    obtain ⟨d, hd, hchar⟩ :=
      (writes_toDigits (by decide) (by decide) n : Writes 2 _ _).isDigit_of_mem c hc
    interval_cases d <;> rcases hchar with hchar | hchar <;> cases hchar <;> decide
  have hne : (Nat.toDigits 2 n).isEmpty = false := by simp
  unfold Radix.magnitude at hread ⊢
  rw [isBinaryWord, hread, hdigits, hne]
  rfl

/-- A magnitude is one token. -/
theorem tokensFrom_magnitude (r : Radix) {n : Nat} (hn : n < r.limit) (pos : Nat) :
    tokensFrom pos (r.magnitude n) =
      .ok [⟨.number, pos, String.ofList (r.magnitude n)⟩,
        ⟨.ending, pos + byteSize (r.magnitude n), ""⟩] := by
  have hword : ∀ c ∈ r.magnitude n, isWordChar c = true := fun c hc => by
    rw [isWordChar, r.isAlphanum_of_mem_magnitude n c hc, Bool.true_or]
  by_cases hbin : r = .bin
  · subst hbin
    have hkind : wordKind (Radix.bin.magnitude n) = .number := by
      rw [wordKind, isBinaryWord_magnitude hn, if_pos rfl]
    have hend : ∀ d ∈ ([] : List Char).head?, isWordChar d = false := by simp
    have htoken := tokensFrom_word (c := 'b') (by decide) (List.forall_mem_cons.mp hword).2 hend pos
    rw [List.append_nil] at htoken
    unfold Radix.magnitude at hkind ⊢
    rw [htoken, hkind]
    simp [tokensFrom, Except.map]
  · obtain ⟨c, cs, hcs, hdigit⟩ := r.magnitude_eq_cons n
    have hread := r.read?_magnitude hn
    rw [hcs] at hread hword ⊢
    rw [tokensFrom_number (hdigit hbin) fun d hd =>
      isNumberChar_of_isWordChar (hword d (List.mem_cons_of_mem _ hd)), hread]
    rfl

/-- A minus sign is a token of its own. -/
theorem tokensFrom_minus (pos : Nat) (tail : List Char) :
    tokensFrom pos ('-' :: tail) =
      (tokensFrom (pos + 1) tail).map (⟨.sub, pos, "-"⟩ :: ·) := by
  have hlexeme : lexeme pos '-' tail = .ok (.sub, 0) := rfl
  have hsize : '-'.utf8Size = 1 := rfl
  rw [tokensFrom, if_neg (by decide), hlexeme]
  simp only [List.take_zero, List.drop_zero, Text.byteSize_cons, Text.byteSize_nil, hsize]
  cases tokensFrom (pos + 1) tail <;> rfl

end Token

/-! ## What is printed is an expression -/

/-- Tokens that are an expression up to the end are the statement of this expression. -/
theorem answers_of_derives {text : String} {ts : List Token} {pos : Nat} {e : Expr}
    {answer : Except EvalError Number}
    (htokens : Token.tokenize text = .ok (ts ++ [⟨.ending, pos, ""⟩])) (hread : Readable ts)
    (hderives : Derives .or ts e) (heval : ∀ bindings, e.eval bindings = answer) :
    Answers text answer := by
  have hending : ∀ t ∈ ts, t.kind ≠ .ending := fun t ht h =>
    hderives.not_mem_foreign t ht (by rw [h]; decide)
  refine ⟨_, e, htokens, ?_, heval⟩
  rw [Statement.parse, Statement.body_append_ending hending]
  exact Statement.parseBody_of_spells hread (.expr hderives)

section Magnitudes

variable (r : Radix) {n : Nat}

/-- The token of a magnitude. -/
def magnitudeToken (n pos : Nat) : Token := ⟨.number, pos, String.ofList (r.magnitude n)⟩

theorem derives_magnitude (hn : n < r.limit) (pos : Nat) :
    Readable [magnitudeToken r n pos] ∧
      Derives .unary [magnitudeToken r n pos] (.number (.int (Int64.ofNat n))) := by
  have hread : Literal.read? (magnitudeToken r n pos).text = some (.int (Int64.ofNat n)) :=
    r.read?_magnitude hn
  have hnumber : numberOf (magnitudeToken r n pos) = .int (Int64.ofNat n) := by
    rw [numberOf, hread]
    rfl
  refine ⟨fun t ht _ => ?_, ?_⟩
  · rw [List.mem_singleton.mp ht, hread]
    rfl
  · rw [← hnumber]
    exact (Derives.literal rfl).weaken (by decide)

/-- A magnitude answers with the word that it spells out. -/
theorem answers_magnitude (hn : n < r.limit) :
    Answers (String.ofList (r.magnitude n)) (.ok (.int (Int64.ofNat n))) := by
  obtain ⟨hread, hderives⟩ := derives_magnitude r hn 0
  have htokens : Token.tokenize (String.ofList (r.magnitude n)) =
      .ok ([magnitudeToken r n 0] ++ [⟨.ending, 0 + byteSize (r.magnitude n), ""⟩]) := by
    rw [Token.tokenize, String.toList_ofList, Token.tokensFrom_magnitude r hn]
    rfl
  exact answers_of_derives htokens hread (hderives.weaken (by decide)) fun _ => rfl

/-- With a sign it answers with the negative of that word. -/
theorem answers_minus_magnitude (hn : n < r.limit) :
    Answers (String.ofList ('-' :: r.magnitude n))
      (Number.applyUnary (.int (Int64.ofNat n)) .negate) := by
  obtain ⟨hread, hderives⟩ := derives_magnitude r hn 1
  have htokens : Token.tokenize (String.ofList ('-' :: r.magnitude n)) =
      .ok ([⟨.sub, 0, "-"⟩, magnitudeToken r n 1] ++
        [⟨.ending, 0 + 1 + byteSize (r.magnitude n), ""⟩]) := by
    rw [Token.tokenize, String.toList_ofList, Token.tokensFrom_minus,
      Token.tokensFrom_magnitude r hn]
    rfl
  have hreadable : Readable [⟨.sub, 0, "-"⟩, magnitudeToken r n 1] :=
    List.forall_mem_cons.mpr ⟨fun h => absurd h (by decide), hread⟩
  exact answers_of_derives htokens hreadable ((Derives.negate rfl hderives).weaken (by decide))
    fun _ => rfl

end Magnitudes

/-! ## Every integer but the least -/

theorem render_of_nonneg (r : Radix) {n : Int64} (hn : 0 ≤ n.toInt) :
    r.render (.int n) = String.ofList (r.magnitude n.toInt.natAbs) := by
  rw [Radix.render, Radix.renderInt, if_neg (by omega)]
  rfl

theorem render_of_neg (r : Radix) {n : Int64} (hn : n.toInt < 0) :
    r.render (.int n) = String.ofList ('-' :: r.magnitude n.toInt.natAbs) := by
  rw [Radix.render, Radix.renderInt, if_pos hn]
  rfl

theorem Radix.le_limit (r : Radix) : 2 ^ 63 ≤ r.limit := by
  cases r <;> decide

theorem ofNat_natAbs_of_nonneg {n : Int64} (hn : 0 ≤ n.toInt) : Int64.ofNat n.toInt.natAbs = n := by
  rw [← Int64.ofInt_eq_ofNat, Int.natAbs_of_nonneg hn, Int64.ofInt_toInt]

/-- The least integer is the only one whose magnitude is no integer. -/
theorem natAbs_toInt_lt {n : Int64} (hn : n ≠ Int64.minValue) : n.toInt.natAbs < 2 ^ 63 := by
  have hlow := Int64.le_toInt n
  have hhigh := Int64.toInt_lt n
  have hleast : n.toInt ≠ -2 ^ 63 := by
    rw [← Int64.toInt_minValue]
    exact fun h => hn (Int64.toInt_inj.mp h)
  omega

/-- What is printed answers with the integer. -/
theorem answers_render (r : Radix) {n : Int64} (hn : n ≠ Int64.minValue) :
    Answers (r.render (.int n)) (.ok (.int n)) := by
  have hmagnitude := natAbs_toInt_lt hn
  have hlimit := lt_of_lt_of_le hmagnitude r.le_limit
  rcases lt_or_ge n.toInt 0 with hneg | hpos
  · have hanswer := answers_minus_magnitude r hlimit
    have hvalue : n.toInt = -(Int64.ofNat n.toInt.natAbs).toInt := by
      rw [Int64.toInt_ofNat_of_lt hmagnitude]
      omega
    rwa [Number.applyUnary_int, UnaryOp.exact, Number.exact_eq_ok_iff.mpr hvalue,
      ← render_of_neg r hneg] at hanswer
  · rw [render_of_nonneg r hpos]
    have hanswer := answers_magnitude r hlimit
    rwa [ofNat_natAbs_of_nonneg hpos] at hanswer

/-! ## The least integer -/

/-- Its magnitude is no decimal literal. -/
theorem parse_render_minValue :
    Calculator.parse (Radix.dec.render (.int Int64.minValue)) =
      .error (.invalidNumber "9223372036854775808" 1) := by
  have htext : Radix.dec.render (.int Int64.minValue) = "-9223372036854775808" := by
    decide +kernel
  have htail : ∀ c ∈ "223372036854775808".toList, Token.isNumberChar c = true :=
    List.all_eq_true.mp (by decide)
  have hnumber := Token.tokensFrom_number (c := '9') (by decide) htail 1
  rw [if_neg (by decide +kernel)] at hnumber
  have htokens : Token.tokenize "-9223372036854775808" =
      .error (.invalidNumber "9223372036854775808" 1) := by
    have hminus := Token.tokensFrom_minus 0 "9223372036854775808".toList
    rw [Nat.zero_add] at hminus
    exact hminus.trans (congrArg (Except.map _) hnumber)
  rw [htext, Calculator.parse, htokens]

/-- Behind a mark its magnitude spells out the least integer, which has no negative. -/
theorem answers_render_minValue {r : Radix} (hr : r ≠ .dec) :
    Answers (r.render (.int Int64.minValue)) (.error (.overflow (.unary .negate))) := by
  have hlimit : 2 ^ 63 < r.limit := by
    cases r with
    | dec => exact absurd rfl hr
    | hex | oct | bin => decide
  have hanswer := answers_minus_magnitude r hlimit
  have hover : Number.applyUnary (.int (Int64.ofNat (2 ^ 63))) .negate =
      .error (.overflow (.unary .negate)) := by
    decide +kernel
  rw [hover] at hanswer
  exact hanswer

/-- No other integer is printed like the least one. -/
theorem render_ne_render_minValue (r : Radix) {n : Int64} (hn : n ≠ Int64.minValue) :
    r.render (.int n) ≠ r.render (.int Int64.minValue) := by
  intro heq
  have hanswers := answers_render r hn
  rw [heq] at hanswers
  by_cases hr : r = .dec
  · subst hr
    obtain ⟨ts, e, htokens, hparse, -⟩ := hanswers
    have hrefused := parse_render_minValue
    rw [Calculator.parse, htokens] at hrefused
    dsimp only at hrefused
    rw [hparse] at hrefused
    cases hrefused
  · cases hanswers.unique (answers_render_minValue hr)

/-- Different integers are printed differently. -/
theorem render_int_injective (r : Radix) {m n : Int64}
    (h : r.render (.int m) = r.render (.int n)) : m = n := by
  by_cases hm : m = Int64.minValue
  · subst hm
    by_contra hn
    exact render_ne_render_minValue r (Ne.symm hn) h.symm
  · by_cases hn : n = Int64.minValue
    · subst hn
      exact absurd h (render_ne_render_minValue r hm)
    · have hanswers := answers_render r hm
      rw [h] at hanswers
      exact Number.int.inj (Except.ok.inj (hanswers.unique (answers_render r hn)))

/-- **Printed integers read back.**  In every format the text of an integer is an expression with
this integer as its value, except for the least one.  In decimal that is refused as a number, and in
the other formats it overflows. -/
theorem printed_integers_read_back (r : Radix) :
    (∀ n : Int64, n ≠ Int64.minValue → Answers (r.render (.int n)) (.ok (.int n))) ∧
      (r = .dec → Calculator.parse (r.render (.int Int64.minValue)) =
        .error (.invalidNumber "9223372036854775808" 1)) ∧
      (r ≠ .dec →
        Answers (r.render (.int Int64.minValue)) (.error (.overflow (.unary .negate)))) ∧
      ∀ m n : Int64, r.render (.int m) = r.render (.int n) → m = n := by
  refine ⟨fun n hn => answers_render r hn, ?_, answers_render_minValue,
    fun m n => render_int_injective r⟩
  rintro rfl
  exact parse_render_minValue

/-- In octal the least integer but one reads back, and the least does not, neither there nor in
decimal. -/
theorem printed_integers_read_back_ends :
    Answers "-0777777777777777777777" (.ok (.int (-0x7fffffffffffffff))) ∧
      Answers "-01000000000000000000000" (.error (.overflow (.unary .negate))) ∧
      Calculator.parse "-9223372036854775808" =
        .error (.invalidNumber "9223372036854775808" 1) := by
  obtain ⟨hread, -, hleast, -⟩ := printed_integers_read_back .oct
  obtain ⟨-, hrefused, -, -⟩ := printed_integers_read_back .dec
  have htext : Radix.oct.render (.int (-0x7fffffffffffffff)) = "-0777777777777777777777" := by
    decide +kernel
  have hoct : Radix.oct.render (.int Int64.minValue) = "-01000000000000000000000" := by
    decide +kernel
  have hdec : Radix.dec.render (.int Int64.minValue) = "-9223372036854775808" := by
    decide +kernel
  rw [← htext, ← hoct, ← hdec]
  exact ⟨hread _ (by decide), hleast (by decide), hrefused rfl⟩

end Abacus
