import Abacus.Proofs.Lossless

/-!
# A fault is at the leftmost token that cannot be right

The parser reports the first token that it has no use for.  That this token is to blame needs two
things.  The tokens before it are the beginning of a statement, so that nothing to the left of it is
wrong.  And no statement begins with these tokens and this one, so that it cannot be put right
further on.

## Parsers that blame the right token

Both are shown for all parts of the parser at once, each a function of where the tokens end and of
the tokens.  Such a part is `Precise` if it can be satisfied by some tokens, and if the fault it
reports is `Blamed` on the right token.  A part that reads one token and goes on as another part
keeps this (`Blames.cons`), and so do refusing a token and missing one.

For expressions the parts are the states of the parser.  Each of them can be satisfied: an operand
that is missing is put in, and then everything that is open is closed (`exists_closing`).
-/

namespace Abacus

/-! ## Who is to blame -/

section Blame

variable {α β : Type} {p q : Nat → List Token → Except SyntaxError α} {t : Token} {ts : List Token}

/-- Every token has been what was wanted; at most there is no output format of the name given. -/
def Accepted (x : Except SyntaxError α) : Prop :=
  (∃ a, x = .ok a) ∨ ∃ name pos, x = .error (.unknownFormat name pos)

/-- A token, or the end, has not been what was wanted. -/
def Rejected (x : Except SyntaxError α) : Prop :=
  ∃ found expected pos, x = .error (.unexpected found expected pos)

/-- The tokens can be continued to something that is accepted. -/
def Viable (p : Nat → List Token → Except SyntaxError α) (ts : List Token) : Prop :=
  ∃ us, (∀ u ∈ us, u.kind ≠ .ending) ∧ ∀ stop, Accepted (p stop (ts ++ us))

/-- What is found is the first of the tokens that cannot be right, or there is none and the tokens
are not enough. -/
inductive Blamed (p : Nat → List Token → Except SyntaxError α) (stop : Nat) (ts : List Token) :
    Found → Nat → Prop where
  | token {before t after} : ts = before ++ t :: after → Viable p before →
      (∀ stop us, Rejected (p stop (before ++ t :: us))) → Blamed p stop ts (.token t.text) t.pos
  | ending : Viable p ts → (∀ stop, Rejected (p stop ts)) → Blamed p stop ts .ending stop

/-- The fault of the tokens, if there is one, is where it is reported. -/
def Blames (p : Nat → List Token → Except SyntaxError α) (ts : List Token) : Prop :=
  ∀ stop found expected pos,
    p stop ts = .error (.unexpected found expected pos) → Blamed p stop ts found pos

/-- The parser can be satisfied, and it blames the right token. -/
structure Precise (p : Nat → List Token → Except SyntaxError α) : Prop where
  viable : Viable p []
  blames : ∀ ts, Blames p ts

theorem Viable.of_accepted (h : ∀ stop, Accepted (p stop [])) : Viable p [] :=
  ⟨[], List.forall_mem_nil _, h⟩

theorem Viable.cons (hp : ∀ stop us, p stop (t :: us) = q stop us) (h : Viable q ts) :
    Viable p (t :: ts) := by
  obtain ⟨us, hus, haccepted⟩ := h
  refine ⟨us, hus, fun stop => ?_⟩
  rw [List.cons_append, hp]
  exact haccepted stop

/-- A token that can be continued can be put in. -/
theorem Viable.of_cons (hp : ∀ stop us, p stop (t :: us) = q stop us) (ht : t.kind ≠ .ending)
    (h : Viable q []) : Viable p [] := by
  obtain ⟨us, hus, haccepted⟩ := h.cons hp
  exact ⟨t :: us, List.forall_mem_cons.mpr ⟨ht, hus⟩, haccepted⟩

namespace Blames

/-- What comes after a token is left to another parser. -/
theorem cons (hp : ∀ stop us, p stop (t :: us) = q stop us) (h : Blames q ts) :
    Blames p (t :: ts) := by
  intro stop found expected pos herror
  rw [hp] at herror
  cases h stop found expected pos herror with
  | @token before u after hts hviable hrejected =>
    have hts : t :: ts = (t :: before) ++ u :: after := congrArg (t :: ·) hts
    refine .token hts (hviable.cons hp) fun stop us => ?_
    rw [List.cons_append, hp]
    exact hrejected stop us
  | ending hviable hrejected =>
    refine .ending (hviable.cons hp) fun stop => ?_
    rw [hp]
    exact hrejected stop

/-- A token is not wanted, whatever may come after it. -/
theorem refused (expected : Expected) (hviable : Viable p [])
    (hp : ∀ stop us, p stop (t :: us) = .error (t.unexpected expected)) : Blames p (t :: ts) := by
  intro stop found expected' pos herror
  rw [hp] at herror
  obtain ⟨rfl, -, rfl⟩ := SyntaxError.unexpected.inj (Except.error.inj herror)
  exact .token (List.nil_append _).symm hviable fun stop us => ⟨_, _, _, hp stop us⟩

/-- A token is missing. -/
theorem missing (expected : Expected) (hviable : Viable p [])
    (hp : ∀ stop, p stop [] = .error (.unexpected .ending expected stop)) : Blames p [] := by
  intro stop found expected' pos herror
  rw [hp] at herror
  obtain ⟨rfl, -, rfl⟩ := SyntaxError.unexpected.inj (Except.error.inj herror)
  exact .ending hviable fun stop => ⟨_, _, _, hp stop⟩

/-- There is nobody to blame. -/
theorem of_accepted (h : ∀ stop, Accepted (p stop ts)) : Blames p ts := by
  intro stop found expected pos herror
  rcases h stop with ⟨a, ha⟩ | ⟨name, at', ha⟩
  · rw [ha] at herror
    cases herror
  · rw [ha] at herror
    cases herror

end Blames

end Blame

/-! ## Expressions -/

namespace Expr.Parser

variable {α : Type}

/-- What is left to do in a state, and what is made of the expression in the end. -/
def parseFrom (f : Expr → α) (s : State) (stop : Nat) (ts : List Token) :
    Except SyntaxError α := do
  let s ← run s ts
  let e ← finish stop s
  return f e

theorem parseFrom_nil (f : Expr → α) (s : State) (stop : Nat) :
    parseFrom f s stop [] = finish stop s >>= fun e => pure (f e) := rfl

theorem parse_bind (f : Expr → α) (stop : Nat) (ts : List Token) :
    (parse stop ts >>= fun e => pure (f e)) = parseFrom f (.operand []) stop ts := by
  rw [parse, parseFrom]
  cases run (.operand []) ts with
  | ok s => rfl
  | error e => rfl

theorem parseFrom_of_step {f : Expr → α} {s s' : State} {t : Token} (h : step s t = .ok s')
    (stop : Nat) (ts : List Token) : parseFrom f s stop (t :: ts) = parseFrom f s' stop ts := by
  rw [parseFrom, run, h, parseFrom]

theorem parseFrom_of_error {f : Expr → α} {s : State} {t : Token} {e : SyntaxError}
    (h : step s t = .error e) (stop : Nat) (ts : List Token) :
    parseFrom f s stop (t :: ts) = .error e := by
  rw [parseFrom, run, h]
  rfl

/-! ### Every state can be satisfied -/

/-- A number to put in where an operand is missing. -/
def zero : Token := ⟨.number, 0, "0"⟩

/-- A parenthesis to begin an argument with. -/
def opening : Token := ⟨.openParen, 0, "("⟩

/-- A parenthesis to end an argument or a group with. -/
def closing : Token := ⟨.closeParen, 0, ")"⟩

theorem step_zero (stack : List Frame) :
    step (.operand stack) zero = .ok (.operator stack (.number (.int 0))) := by
  simp only [step, zero, Grammar.read?_zero]

/-- What ends an operand sees of the stack only what is left of it when everything has been finished
down to a parenthesis. -/
theorem parseFrom_closing_congr {f : Expr → α} {stack stack' : List Frame} {e e' : Expr}
    (h : settle 0 stack e = settle 0 stack' e') (stop n : Nat) :
    parseFrom f (.operator stack e) stop (List.replicate n closing) =
      parseFrom f (.operator stack' e') stop (List.replicate n closing) := by
  cases n with
  | zero => simp only [List.replicate_zero, parseFrom_nil, finish, h]
  | succ n =>
    have hstep : step (.operator stack e) closing = step (.operator stack' e') closing := by
      simp only [step, closing, BinaryOp.ofKind?, h]
    simp only [List.replicate_succ, parseFrom, run, hstep]

/-- What is open can be closed. -/
theorem exists_closing (f : Expr → α) (stack : List Frame) (e : Expr) :
    ∃ n, ∀ stop, ∃ a, parseFrom f (.operator stack e) stop (List.replicate n closing) = .ok a := by
  induction stack generalizing e with
  | nil => exact ⟨0, fun stop => ⟨f e, rfl⟩⟩
  | cons frame stack ih =>
    cases frame with
    | unary op =>
      have hsettle : settle 0 (.unary op :: stack) e = settle 0 stack (.unary op e) := rfl
      obtain ⟨n, hn⟩ := ih (.unary op e)
      refine ⟨n, fun stop => ?_⟩
      rw [parseFrom_closing_congr hsettle]
      exact hn stop
    | binary op left =>
      have hpos : 0 < op.rightStrength := Nat.lt_trans (by decide) (rightStrength_bounds op).1
      have hsettle : settle 0 (.binary op left :: stack) e = settle 0 stack (.binary op left e) :=
        if_pos hpos
      obtain ⟨n, hn⟩ := ih (.binary op left e)
      refine ⟨n, fun stop => ?_⟩
      rw [parseFrom_closing_congr hsettle]
      exact hn stop
    | group =>
      have hstep : step (.operator (.group :: stack) e) closing = .ok (.operator stack e) := rfl
      obtain ⟨n, hn⟩ := ih e
      refine ⟨n + 1, fun stop => ?_⟩
      rw [List.replicate_succ, parseFrom_of_step hstep]
      exact hn stop
    | absolute =>
      have hstep : step (.operator (.absolute :: stack) e) closing =
          .ok (.operator stack (.unary .absolute e)) := rfl
      obtain ⟨n, hn⟩ := ih (.unary .absolute e)
      refine ⟨n + 1, fun stop => ?_⟩
      rw [List.replicate_succ, parseFrom_of_step hstep]
      exact hn stop

theorem viable_operator (f : Expr → α) (stack : List Frame) (e : Expr) :
    Viable (parseFrom f (.operator stack e)) [] := by
  obtain ⟨n, hn⟩ := exists_closing f stack e
  refine ⟨List.replicate n closing, fun u hu => ?_, fun stop => .inl (hn stop)⟩
  rw [List.eq_of_mem_replicate hu]
  decide

theorem viable_operand (f : Expr → α) (stack : List Frame) :
    Viable (parseFrom f (.operand stack)) [] :=
  .of_cons (parseFrom_of_step (step_zero stack)) (by decide) (viable_operator f stack _)

theorem viable_argument (f : Expr → α) (stack : List Frame) :
    Viable (parseFrom f (.argument stack)) [] :=
  have hstep : step (.argument stack) opening = .ok (.operand (.absolute :: stack)) := rfl
  .of_cons (parseFrom_of_step hstep) (by decide) (viable_operand f _)

theorem viable_parseFrom (f : Expr → α) (s : State) : Viable (parseFrom f s) [] := by
  cases s with
  | operand stack => exact viable_operand f stack
  | argument stack => exact viable_argument f stack
  | operator stack e => exact viable_operator f stack e

/-! ### Every state blames the right token -/

/-- At the end a state is content, or it misses something. -/
theorem blames_nil (f : Expr → α) (s : State) : Blames (parseFrom f s) [] := by
  have hviable := viable_parseFrom f s
  cases s with
  | operand stack => exact .missing .expression hviable fun stop => rfl
  | argument stack => exact .missing .openParen hviable fun stop => rfl
  | operator stack e =>
    by_cases hstack : (settle 0 stack e).1 = []
    · have hsettle : settle 0 stack e = ([], (settle 0 stack e).2) := Prod.ext hstack rfl
      refine .of_accepted fun stop => .inl ⟨f (settle 0 stack e).2, ?_⟩
      rw [parseFrom_nil, finish, hsettle]
      rfl
    · refine .missing .closeParen hviable fun stop => ?_
      rw [parseFrom_nil, finish]
      split
      next heq => exact absurd (by rw [heq]) hstack
      next => rfl

/-- A parser that leaves the first token to a state blames the right token if the state that comes
next does. -/
theorem blames_of_step {p : Nat → List Token → Except SyntaxError α} {t : Token}
    {ts : List Token} (f : Expr → α) (s : State) (hviable : Viable p [])
    (hp : ∀ stop us, p stop (t :: us) = parseFrom f s stop (t :: us))
    (hts : ∀ s', Blames (parseFrom f s') ts) : Blames p (t :: ts) := by
  cases hstep : step s t with
  | ok s' =>
    refine .cons (fun stop us => ?_) (hts s')
    rw [hp, parseFrom_of_step hstep]
  | error e =>
    have herror : ∀ stop us, p stop (t :: us) = .error e := fun stop us => by
      rw [hp, parseFrom_of_error hstep]
    rcases error_of_step hstep with ⟨expected, rfl⟩ | ⟨-, -, rfl⟩
    · exact .refused expected hviable herror
    · intro stop found expected pos h
      rw [herror] at h
      cases h

theorem precise_parseFrom (f : Expr → α) (s : State) : Precise (parseFrom f s) := by
  refine ⟨viable_parseFrom f s, fun ts => ?_⟩
  induction ts generalizing s with
  | nil => exact blames_nil f s
  | cons t ts ih => exact blames_of_step f s (viable_parseFrom f s) (fun _ _ => rfl) ih

end Expr.Parser

/-! ## Commands -/

namespace Statement

open Expr.Parser (parseFrom parse_bind parseFrom_of_step zero step_zero blames_of_step
  precise_parseFrom)

variable {α : Type} {k : Token → Nat → List Token → Except SyntaxError α}

/-- A token of a certain kind, and then what depends on it. -/
theorem precise_expect (kind : Token.Kind) (expected : Expected) (hkind : kind ≠ .ending)
    (hk : ∀ t, t.kind = kind → Precise (k t)) :
    Precise fun stop ts => expect kind expected stop ts >>= fun x => k x.1 stop x.2 := by
  have hcons : ∀ t : Token, t.kind = kind → ∀ stop us,
      (expect kind expected stop (t :: us) >>= fun x => k x.1 stop x.2) = k t stop us := by
    intro t ht stop us
    rw [expect, if_pos ht]
    rfl
  have hviable : Viable (fun stop ts => expect kind expected stop ts >>= fun x => k x.1 stop x.2)
      [] := .of_cons (hcons ⟨kind, 0, ""⟩ rfl) hkind (hk _ rfl).viable
  refine ⟨hviable, fun ts => ?_⟩
  cases ts with
  | nil => exact .missing expected hviable fun stop => rfl
  | cons t ts =>
    by_cases ht : t.kind = kind
    · exact .cons (hcons t ht) ((hk t ht).blames ts)
    · refine .refused expected hviable fun stop us => ?_
      simp only [expect, if_neg ht]
      rfl

/-- Nothing more. -/
theorem precise_expectEnd (a : α) : Precise fun _ ts => expectEnd ts >>= fun _ => pure a := by
  have hnil : ∀ stop : Nat, Accepted ((fun _ ts => expectEnd ts >>= fun _ => pure a) stop []) :=
    fun stop => .inl ⟨a, rfl⟩
  refine ⟨.of_accepted hnil, fun ts => ?_⟩
  cases ts with
  | nil => exact .of_accepted hnil
  | cons t ts => exact .refused .ending (.of_accepted hnil) fun stop us => rfl

/-- A name in parentheses, and then what depends on it. -/
theorem precise_nameArgument (expected : Expected) (hk : ∀ t, t.kind = .variable → Precise (k t)) :
    Precise fun stop ts => nameArgument expected stop ts >>= fun x => k x.1 stop x.2 := by
  have hclose : ∀ v : Token, v.kind = .variable → Precise fun stop ts =>
      expect .closeParen .closeParen stop ts >>= fun x => k v stop x.2 := fun v hv =>
    precise_expect .closeParen .closeParen (by decide) fun _ _ => hk v hv
  have hname := precise_expect .variable expected (by decide) hclose
  have hopen := precise_expect .openParen .openParen (by decide) fun _ _ => hname
  simpa only [nameArgument, bind_assoc, pure_bind] using hopen

/-- An empty pair of parentheses or nothing. -/
theorem precise_emptyArgument (a : α) : Precise fun stop ts =>
    emptyArgument stop ts >>= fun ts => expectEnd ts >>= fun _ => pure a := by
  have hnil : ∀ stop : Nat, Accepted ((fun stop ts =>
      emptyArgument stop ts >>= fun ts => expectEnd ts >>= fun _ => pure a) stop []) :=
    fun stop => .inl ⟨a, rfl⟩
  refine ⟨.of_accepted hnil, fun ts => ?_⟩
  cases ts with
  | nil => exact .of_accepted hnil
  | cons t ts =>
    by_cases ht : t.kind = .openParen
    · have hclose := precise_expect .closeParen .closeParen (by decide) fun _ _ =>
        precise_expectEnd a
      refine .cons (fun stop us => ?_) (hclose.blames ts)
      simp only [emptyArgument, if_pos ht, bind_assoc, pure_bind]
    · refine .refused .ending (.of_accepted hnil) fun stop us => ?_
      simp only [emptyArgument, if_neg ht]
      rfl

/-! ## Statements -/

theorem viable_parseBody : Viable parseBody [] := by
  refine ⟨[zero], List.forall_mem_singleton.mpr (by decide), fun stop => ?_⟩
  have hparse : parseFrom Statement.expr (.operand []) stop [zero] =
      .ok (.expr (.number (.int 0))) := by
    rw [parseFrom_of_step (step_zero [])]
    rfl
  exact .inl ⟨_, hparse⟩

/-- What the name of an output format makes of the tokens after it. -/
def afterFormat (name : Token) (ts : List Token) : Except SyntaxError Statement :=
  match Radix.ofName? name.text with
  | none => .error (.unknownFormat name.text name.pos)
  | some radix => expectEnd ts >>= fun _ => pure (.output radix)

/-- A name that is no output format stops the parser, whatever may follow. -/
theorem precise_afterFormat (name : Token) : Precise fun _ ts => afterFormat name ts := by
  unfold afterFormat
  cases Radix.ofName? name.text with
  | none =>
    have hunknown : Accepted (.error (.unknownFormat name.text name.pos) :
      Except SyntaxError Statement) := .inr ⟨name.text, name.pos, rfl⟩
    exact ⟨.of_accepted fun _ => hunknown, fun _ => .of_accepted fun _ => hunknown⟩
  | some radix => exact precise_expectEnd _

/-- A variable is an expression, and the next token tells whether more of it comes, or a value. -/
theorem blames_variable {t : Token} (ht : t.kind = .variable) (ts : List Token) :
    Blames (fun stop ts => parseBody stop (t :: ts)) ts := by
  have hstep : Expr.Parser.step (.operand []) t = .ok (.operator [] (.variable t.text)) := by
    simp only [Expr.Parser.step, ht]
  have hnil : ∀ stop, Accepted (parseBody stop [t]) := by
    intro stop
    have hparse : parseBody stop [t] = .ok (.expr (.variable t.text)) := by
      simp only [parseBody, ht, parse_bind, parseFrom_of_step hstep]
      rfl
    exact .inl ⟨_, hparse⟩
  cases ts with
  | nil => exact .of_accepted hnil
  | cons u value =>
    by_cases hu : u.kind = .assign
    · refine .cons (fun stop us => ?_) ((precise_parseFrom (.assign t.text) (.operand [])).blames _)
      simp only [parseBody, ht, hu, if_true, parse_bind]
    · refine blames_of_step .expr (.operator [] (.variable t.text)) (.of_accepted hnil)
        (fun stop us => ?_) fun s => (precise_parseFrom Statement.expr s).blames value
      simp only [parseBody, ht, if_neg hu, parse_bind]
      exact parseFrom_of_step hstep _ _

/-- **The parser of statements blames the right token.** -/
theorem precise_parseBody : Precise parseBody := by
  refine ⟨viable_parseBody, fun ts => ?_⟩
  cases ts with
  | nil =>
    intro stop found expected pos h
    cases h
  | cons t ts =>
    cases ht : t.kind
    case clear =>
      refine .cons (fun stop us => ?_) ((precise_emptyArgument Statement.clear).blames ts)
      simp only [parseBody, ht]
    case save =>
      refine .cons (fun stop us => ?_) ((precise_nameArgument .slotName fun slot _ =>
        precise_expectEnd (Statement.save slot.text)).blames ts)
      simp only [parseBody, ht]
    case load =>
      refine .cons (fun stop us => ?_) ((precise_nameArgument .slotName fun slot _ =>
        precise_expectEnd (Statement.load slot.text)).blames ts)
      simp only [parseBody, ht]
    case output =>
      refine .cons (fun stop us => ?_) ((precise_nameArgument .outputFormat fun name _ =>
        precise_afterFormat name).blames ts)
      simp only [parseBody, ht]
      rfl
    case «variable» => exact .cons (fun _ _ => rfl) (blames_variable ht ts)
    all_goals
      refine blames_of_step .expr (.operand []) viable_parseBody (fun stop us => ?_) fun s =>
        (precise_parseFrom Statement.expr s).blames ts
      simp only [parseBody, ht, parse_bind]

/-- Where a token stands in a list that is split there. -/
theorem exists_index {ts before after : List Token} {t : Token} (h : ts = before ++ t :: after) :
    ∃ i : Fin ts.length, ts.get i = t ∧ ts.take i = before ∧ ts.take (i + 1) = before ++ [t] := by
  subst h
  exact ⟨⟨before.length, by simp⟩, by simp, by simp, List.take_length_add_append 1⟩

/-- What can be continued can be continued to a whole list. -/
theorem exists_accepted {ts : List Token} (hts : ∀ t ∈ ts, t.kind ≠ .ending)
    (h : Viable parseBody ts) : ∃ us, Accepted (parse (ts ++ us)) := by
  obtain ⟨us, hus, haccepted⟩ := h
  refine ⟨us, ?_⟩
  rw [parse, body_eq_self (List.forall_mem_append.mpr ⟨hts, hus⟩)]
  exact haccepted _

/-- What nothing can be made of is refused as the beginning of any list, whatever may follow its
end. -/
theorem rejected_append {ts : List Token} {t : Token} (hts : ∀ u ∈ ts ++ [t], u.kind ≠ .ending)
    (h : ∀ stop us, Rejected (parseBody stop (ts ++ t :: us))) (us : List Token) :
    Rejected (parse (ts ++ [t] ++ us)) := by
  have hbody := h (stop (ts ++ [t] ++ us)) (body us)
  rw [List.append_cons ts t (body us)] at hbody
  rw [parse, body_append hts]
  exact hbody

end Statement

namespace Calculator

open Statement (body_eq_self body_append_ending stop_append_ending precise_parseBody exists_index
  exists_accepted rejected_append)

/-- **A fault is at the leftmost token that cannot be right.**  Let a text have tokens, and let the
parser report that something is unexpected at some place.

* One token stands at this place, and no other.
* The tokens before it can be continued to a statement, but for the name of an output format.
* If it is not the end, nothing that begins with these tokens and this one is a statement, and it is
  the token that is quoted.
* If it is the end, the tokens before it are no statement yet, and the fault says that it is the
  end. -/
theorem leftmost_fault {text : String} {ts : List Token} {found : Found} {expected : Expected}
    {pos : Nat} (hts : Token.tokenize text = .ok ts)
    (h : parse text = .error (.unexpected found expected pos)) :
    ∃ i : Fin ts.length,
      ((ts.get i).pos = pos ∧ ∀ j : Fin ts.length, (ts.get j).pos = pos → j = i) ∧
      (∃ us, Accepted (Statement.parse (ts.take i ++ us))) ∧
      ((ts.get i).kind ≠ .ending →
        (∀ us, Rejected (Statement.parse (ts.take (i + 1) ++ us))) ∧
          found.text = "'" ++ (ts.get i).text ++ "'") ∧
      ((ts.get i).kind = .ending →
        Rejected (Statement.parse (ts.take i)) ∧ found.text = "end of input") := by
  have hparse : Statement.parse ts = .error (.unexpected found expected pos) := by
    rw [parse, hts] at h
    cases hst : Statement.parse ts with
    | ok s => simp [hst] at h
    | error e => simpa [hst] using h
  have hlossless := Token.lossless_of_tokenize hts
  obtain ⟨us, rfl, hus⟩ := hlossless.ending
  have hblamed : Blamed Statement.parseBody (Text.size text) us found pos := by
    rw [Statement.parse, stop_append_ending hus, body_append_ending hus] at hparse
    exact precise_parseBody.blames us _ _ _ _ hparse
  cases hblamed with
  | @token before t after hsplit hviable hrejected =>
    subst hsplit
    obtain ⟨hbefore, ht⟩ := List.forall_mem_append.mp hus
    obtain ⟨i, hi, htake, htake'⟩ := exists_index (List.append_assoc before (t :: after) _)
    refine ⟨i, ⟨by rw [hi], fun j hj => hlossless.pos_injective (by rw [hj, hi])⟩, ?_, ?_, ?_⟩
    · rw [htake]
      exact exists_accepted hbefore hviable
    · rw [hi, htake']
      intro hkind
      have hfront : ∀ u ∈ before ++ [t], u.kind ≠ .ending :=
        List.forall_mem_append.mpr ⟨hbefore, List.forall_mem_singleton.mpr hkind⟩
      exact ⟨rejected_append hfront hrejected, rfl⟩
    · rw [hi]
      intro hkind
      exact absurd hkind (ht t List.mem_cons_self)
  | ending hviable hrejected =>
    obtain ⟨i, hi, htake, -⟩ :=
      exists_index (rfl : us ++ [⟨.ending, Text.size text, ""⟩] = us ++ [_])
    refine ⟨i, ⟨by rw [hi], fun j hj => hlossless.pos_injective (by rw [hj, hi])⟩, ?_, ?_, ?_⟩
    · rw [htake]
      exact exists_accepted hus hviable
    · rw [hi]
      intro hkind
      exact absurd rfl hkind
    · rw [htake]
      intro _
      refine ⟨?_, rfl⟩
      rw [Statement.parse, body_eq_self hus]
      exact hrejected _

/-- In `(1 + 2 3` the fault is the `3`; there is nothing wrong with `(1 + 2`, and nothing that
begins with `(1 + 2 3` is a statement. -/
theorem leftmost_fault_operand : parse "(1 + 2 3" =
      .error (.unexpected (.token "3") .closeParen 7) ∧
    ∀ us, Rejected (Statement.parse ([⟨.openParen, 0, "("⟩, ⟨.number, 1, "1"⟩, ⟨.add, 3, "+"⟩,
      ⟨.number, 5, "2"⟩, ⟨.number, 7, "3"⟩] ++ us)) := by
  have hfault : parse "(1 + 2 3" = .error (.unexpected (.token "3") .closeParen 7) := by
    decide +kernel
  have htokens : Token.tokenize "(1 + 2 3" = .ok [⟨.openParen, 0, "("⟩, ⟨.number, 1, "1"⟩,
      ⟨.add, 3, "+"⟩, ⟨.number, 5, "2"⟩, ⟨.number, 7, "3"⟩, ⟨.ending, 8, ""⟩] := by
    decide +kernel
  obtain ⟨i, ⟨-, hunique⟩, -, hrejected, -⟩ := leftmost_fault htokens hfault
  obtain rfl := hunique 4 rfl
  exact ⟨hfault, (hrejected (by decide)).1⟩

end Calculator

end Abacus
