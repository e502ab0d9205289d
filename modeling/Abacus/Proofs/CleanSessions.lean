import Abacus.Proofs.BoundNames
import Abacus.Proofs.EscapeFree
import Abacus.Proofs.ParserFaults

/-!
# What a session shows has no escape sequences

A line that is a statement consists of visible characters and blanks, and so do the names in it.
So neither its result nor what it is called in the history has an escape character, and nor has a
message about a fault of its execution (`Environment.escapeFree_execute`).  Only a message about a
line that is none can quote one, and then it comes from the line (`escapeFree_of_parse`).

What a session shows is therefore without escape characters if the names are that it starts with
(`Clean.exec`).
-/

namespace Abacus

open Text (EscapeFree)

/-! ## Tokens -/

namespace Token

variable {text : String} {ts : List Token}

/-- The escape character is neither visible nor blank. -/
theorem escapeFree_of_tokenize (h : tokenize text = .ok ts) : EscapeFree text := by
  intro hmem
  rcases visible_of_tokensFrom h _ hmem with hblank | hvisible
  · exact absurd hblank (by decide)
  · exact absurd hvisible.1 (by decide)

theorem escapeFree_of_mem (h : tokenize text = .ok ts) : ∀ t ∈ ts, EscapeFree t.text := by
  have htext := escapeFree_of_tokenize h
  obtain ⟨us, rfl, hus⟩ := (lossless_of_tokenize h).ending
  intro t ht
  rcases List.mem_append.mp ht with hmem | hmem
  · obtain ⟨-, before, after, rfl, -⟩ := (lossless_of_tokenize h).cut t ht (hus t hmem)
    simp only [Text.escapeFree_append] at htext
    exact htext.1.2
  · obtain rfl := List.mem_singleton.mp hmem
    exact List.not_mem_nil

/-- What is wrong with a text that has no tokens is quoted from it. -/
theorem escapeFree_quoted {e : SyntaxError} (h : tokenize text = .error e)
    (htext : EscapeFree text) : EscapeFree e.quoted := by
  obtain ⟨before, rest, hsplit, -, hrefused⟩ := exists_refused h
  have hrest : '\x1b' ∉ rest := fun hmem => htext (hsplit ▸ List.mem_append_right _ hmem)
  cases hrefused with
  | char =>
    rw [SyntaxError.quoted, EscapeFree, String.toList_singleton, List.mem_singleton]
    rintro rfl
    exact hrest List.mem_cons_self
  | number => exact Text.escapeFree_ofList.mpr fun hmem => hrest (List.mem_append_left _ hmem)

end Token

theorem ParseFault.escapeFree_quoted {ts : List Token} {e : SyntaxError} (h : ParseFault ts e)
    (hts : ∀ t ∈ ts, EscapeFree t.text) : EscapeFree e.quoted := by
  cases h with
  | empty | ending => exact List.not_mem_nil
  | token ht | number ht | format ht => exact hts _ ht

/-- A message about a line that is no statement quotes nothing but the line. -/
theorem Calculator.escapeFree_of_parse {line : String} {e : SyntaxError}
    (h : Calculator.parse line = .error e) (hline : EscapeFree line) : EscapeFree e.message := by
  apply SyntaxError.escapeFree_message
  unfold Calculator.parse at h
  cases htokens : Token.tokenize line with
  | error e' =>
    rw [htokens] at h
    obtain rfl := Except.error.inj h
    exact Token.escapeFree_quoted htokens hline
  | ok ts =>
    simp only [htokens] at h
    cases hs : Statement.parse ts with
    | error e' =>
      simp only [hs] at h
      obtain rfl := Except.error.inj h
      exact (Statement.faults_parse ts _ hs).escapeFree_quoted (Token.escapeFree_of_mem htokens)
    | ok s => simp only [hs] at h; cases h

/-! ## Executions -/

/-- Whatever goes wrong, it is not that a name is missing. -/
def Nameless {α : Type} (x : Except EvalError α) : Prop :=
  ∀ name, x ≠ .error (.undefinedVariable name)

namespace Number

theorem nameless_ofWord (op : Operation) (w : Option Int64) : Nameless (ofWord op w) := by
  cases w <;> simp [Nameless, ofWord]

theorem nameless_finite (x : Float) : Nameless (finite x) := by
  unfold finite
  split <;> simp [Nameless]

theorem nameless_applyReal (op : BinaryOp) (x y : Float) : Nameless (applyReal op x y) := by
  cases op <;> simp only [applyReal]
  case add | sub | mul | pow => exact nameless_finite _
  case div | floorDiv | mod =>
    split
    · simp [Nameless]
    · exact nameless_finite _
  case and | or | xor | shiftLeft | shiftRight => simp [Nameless]

theorem nameless_applyInt (op : BinaryOp) (x y : Int64) : Nameless (applyInt op x y) := by
  cases op <;> simp only [applyInt]
  case add | sub | mul => exact nameless_ofWord _ _
  case and | or | xor => simp [Nameless]
  case div =>
    split
    · simp [Nameless]
    · split
      · simp [Nameless]
      · split
        · exact nameless_applyReal _ _ _
        · exact nameless_ofWord _ _
  case floorDiv | mod =>
    split
    · simp [Nameless]
    · exact nameless_ofWord _ _
  case pow =>
    split
    · exact nameless_applyReal _ _ _
    · exact nameless_ofWord _ _
  case shiftLeft =>
    split
    · exact nameless_ofWord _ _
    · simp [Nameless]
  case shiftRight => split <;> simp [Nameless]

theorem nameless_apply (op : BinaryOp) (a b : Number) : Nameless (apply op a b) := by
  unfold apply
  split
  · exact nameless_applyInt _ _ _
  · exact nameless_applyReal _ _ _

theorem nameless_applyUnary (a : Number) (op : UnaryOp) : Nameless (a.applyUnary op) := by
  cases op <;> cases a <;> simp only [applyUnary]
  case negate.int | absolute.int => exact nameless_ofWord _ _
  all_goals simp [Nameless]

end Number

/-- A variable that has not been assigned is one that the expression mentions. -/
theorem Expr.mentions_of_eval {e : Expr} {bindings : Dict Number} {name : String}
    (h : e.eval bindings = .error (.undefinedVariable name)) : e.mentions name = true := by
  induction e with
  | number value => cases h
  | «variable» n =>
    rw [eval] at h
    split at h
    · cases h
    · obtain rfl := EvalError.undefinedVariable.inj (Except.error.inj h)
      exact beq_self_eq_true _
  | unary op operand ih =>
    rw [eval] at h
    split at h
    · exact absurd h (Number.nameless_applyUnary _ _ name)
    next err herr => exact ih (herr.trans h)
  | binary op left right ihl ihr =>
    rw [mentions, Bool.or_eq_true]
    rw [eval] at h
    split at h
    · split at h
      · exact absurd h (Number.nameless_apply _ _ _ name)
      next err herr => exact .inr (ihr (herr.trans h))
    next err herr => exact .inl (ihl (herr.trans h))

/-- The variables that an expression mentions are tokens of it. -/
theorem Grammar.Derives.exists_token {c : Category} {ts : List Token} {e : Expr}
    (h : Derives c ts e) {name : String} (hname : e.mentions name = true) :
    ∃ t ∈ ts, t.text = name := by
  induction h with
  | next _ ih => exact ih hname
  | literal => cases hname
  | @name t _ => exact ⟨t, List.mem_singleton.mpr rfl, beq_iff_eq.mp hname⟩
  | negate _ _ ih | plus _ _ ih | complement _ _ ih =>
    obtain ⟨t, ht, htext⟩ := ih hname
    exact ⟨t, List.mem_cons_of_mem _ ht, htext⟩
  | binary _ _ _ iha ihb | pow _ _ _ iha ihb =>
    rcases Bool.or_eq_true_iff.mp hname with hname | hname
    · obtain ⟨t, ht, htext⟩ := iha hname
      exact ⟨t, List.mem_append_left _ ht, htext⟩
    · obtain ⟨t, ht, htext⟩ := ihb hname
      exact ⟨t, List.mem_append_right _ (List.mem_cons_of_mem _ ht), htext⟩
  | group _ _ _ ih =>
    obtain ⟨t, ht, htext⟩ := ih hname
    exact ⟨t, List.mem_cons_of_mem _ (List.mem_append_left _ ht), htext⟩
  | absolute _ _ _ _ ih =>
    obtain ⟨t, ht, htext⟩ := ih hname
    exact ⟨t, List.mem_cons_of_mem _ (List.mem_cons_of_mem _ (List.mem_append_left _ ht)), htext⟩

theorem Operation.escapeFree_symbol (op : Operation) : EscapeFree op.symbol := by
  cases op with | unary op | binary op => cases op <;> decide

theorem EvalError.escapeFree_message {e : EvalError}
    (h : ∀ name, e = .undefinedVariable name → EscapeFree name) : EscapeFree e.message := by
  cases e with
  | undefinedVariable name =>
    show EscapeFree ("undefined variable '" ++ name ++ "'")
    simp only [Text.escapeFree_append]
    exact ⟨⟨by decide, h name rfl⟩, by decide⟩
  | divisionByZero | notFinite => decide
  | overflow op =>
    show EscapeFree ("integer overflow in '" ++ op.symbol ++ "'")
    simp only [Text.escapeFree_append]
    exact ⟨⟨by decide, op.escapeFree_symbol⟩, by decide⟩
  | integerRequired op =>
    show EscapeFree ("'" ++ op.symbol ++ "' requires integer operands")
    simp only [Text.escapeFree_append]
    exact ⟨⟨by decide, op.escapeFree_symbol⟩, by decide⟩
  | shiftOutOfRange amount =>
    show EscapeFree ("shift amount " ++ toString amount.toInt ++ " is out of range")
    simp only [Text.escapeFree_append]
    exact ⟨⟨by decide, Text.escapeFree_toString_int _⟩, by decide⟩

namespace Environment

open Grammar (Derives Spells)

/-- What is said about a line, be it a result or a message, has no escape character. -/
def EscapeFreeAnswer : Except RunError String → Prop
  | .ok result => EscapeFree result
  | .error e => EscapeFree e.message

section Answers

variable {ts : List Token} (hts : ∀ t ∈ ts, EscapeFree t.text)
include hts

theorem escapeFree_of_eval {us : List Token} {e : Expr} (hus : us ⊆ ts) (he : Derives .or us e)
    {bindings : Dict Number} {err : EvalError} (h : e.eval bindings = .error err) :
    EscapeFree err.message := by
  refine EvalError.escapeFree_message fun name hname => ?_
  subst hname
  obtain ⟨t, ht, rfl⟩ := he.exists_token (Expr.mentions_of_eval h)
  exact hts t (hus ht)

theorem escapeFree_apply (env : Environment) {s : Statement} (h : Spells ts s) :
    EscapeFreeAnswer ((env.apply s).map Prod.snd) := by
  unfold apply
  cases h with
  | clear | clearArgument => show EscapeFree "cleared"; decide
  | @save t l v r =>
    show EscapeFree ("saved " ++ v.text)
    rw [Text.escapeFree_append]
    exact ⟨by decide, hts v (by simp)⟩
  | @load t l v r =>
    have hname : EscapeFree v.text := hts v (by simp)
    dsimp only
    split
    · show EscapeFree ("loaded " ++ v.text)
      rw [Text.escapeFree_append]
      exact ⟨by decide, hname⟩
    · show EscapeFree ("no saved state named '" ++ v.text ++ "'")
      simp only [Text.escapeFree_append]
      exact ⟨⟨by decide, hname⟩, by decide⟩
  | output => exact Radix.escapeFree_name _
  | assign _ _ he =>
    dsimp only
    split
    · exact Radix.escapeFree_render _ _
    next err herr => exact escapeFree_of_eval hts (fun t ht => by simp [ht]) he herr
  | expr he =>
    dsimp only
    split
    · exact Radix.escapeFree_render _ _
    next err herr => exact escapeFree_of_eval hts (List.Subset.refl _) he herr

/-- Whatever is executed, and wherever the tokens come from. -/
theorem escapeFree_execute (env : Environment) (persist : Bool) :
    EscapeFreeAnswer (env.execute ts persist).2 := by
  rw [execute_snd, run]
  cases hs : Statement.parse ts with
  | ok s =>
    have hbody : ∀ t ∈ Statement.body ts, EscapeFree t.text := fun t ht =>
      hts t (Statement.body_subset ts ht)
    exact escapeFree_apply hbody env (Statement.spells_of_parseBody hs).2
  | error e =>
    have hmessage := SyntaxError.escapeFree_message
      ((Statement.faults_parse ts e hs).escapeFree_quoted hts)
    show EscapeFree ("malformed program: " ++ e.message)
    rw [Text.escapeFree_append]
    exact ⟨by decide, hmessage⟩

end Answers

/-- All names that the environment knows. -/
def names (env : Environment) : List String :=
  env.bindings.keys ++ env.slots.entries.flatMap fun e => e.1 :: e.2.keys

theorem Knows.mem_names {env : Environment} {name : String} (h : env.Knows name) :
    name ∈ env.names := by
  have hkey {α : Type} {d : Dict α} {key : String} {value : α} (h : d.get? key = some value) :
      (key, value) ∈ d.entries := (Entries.get?_eq_some_iff d.sorted).mp h
  rw [names, List.mem_append, List.mem_flatMap]
  cases h with
  | «variable» hvalue => exact .inl (List.mem_map.mpr ⟨_, hkey hvalue, rfl⟩)
  | inSlot hslot hvalue =>
    exact .inr ⟨_, hkey hslot, List.mem_cons_of_mem _ (List.mem_map.mpr ⟨_, hkey hvalue, rfl⟩)⟩
  | slot hslot => exact .inr ⟨_, hkey hslot, List.mem_cons_self⟩

end Environment

/-! ## Sessions -/

namespace Calculator

open Session (Event Record)

variable {η : Type}

/-- What comes of a line: no new name has an escape character, nor has a result, and a message
quotes at most the line. -/
structure CleanEvent (env : Environment) (line : String) (e : Event Environment Token) : Prop where
  names : ∀ name, e.environment.Knows name → env.Knows name ∨ EscapeFree name
  result : ∀ result, e.result = .ok result → EscapeFree e.input ∧ EscapeFree result
  message : ∀ message, e.result = .error message → EscapeFree line → EscapeFree message

theorem cleanEvent (env : Environment) (line : String) (persist : Bool) :
    CleanEvent env line (Event.of frontend engine env line persist) := by
  have hparse : frontend.parse line = (Calculator.parse line).mapError SyntaxError.message := rfl
  unfold Event.of
  rw [hparse]
  cases hline : Calculator.parse line with
  | error e =>
    refine ⟨fun _ => .inl, nofun, fun message hmessage hfree => ?_⟩
    obtain rfl := Except.error.inj hmessage
    exact escapeFree_of_parse hline hfree
  | ok ts =>
    have htokens := tokenize_of_parse hline
    have hfree := Token.escapeFree_of_mem htokens
    have hanswer := Environment.escapeFree_execute hfree env persist
    simp only [Except.mapError, engine_execute]
    refine ⟨fun name hname => ?_, fun result hresult => ?_, fun message hmessage _ => ?_⟩
    · refine (Environment.Knows.of_execute hname).imp_right ?_
      rintro ⟨t, ht, -, rfl⟩
      exact hfree t ht
    · cases hexecute : (env.execute ts persist).2 with
      | error e => rw [hexecute] at hresult; cases hresult
      | ok text =>
        rw [hexecute] at hresult hanswer
        obtain rfl := Except.ok.inj hresult
        exact ⟨Token.escapeFree_of_tokenize htokens, hanswer⟩
    · cases hexecute : (env.execute ts persist).2 with
      | error e =>
        rw [hexecute] at hmessage hanswer
        obtain rfl := Except.error.inj hmessage
        exact hanswer
      | ok text => rw [hexecute] at hmessage; cases hmessage

/-- Whatever names a session knows, it gives no escape character as a result, and in a message only
if the line has one. -/
theorem escapeFree_exec (s : Calculator η) (line : String) (persist : Bool) :
    let outcome := s.exec line persist
    (outcome.ok = true → EscapeFree outcome.session.record.lastResult) ∧
      (EscapeFree line →
        ∀ message, outcome.session.record.lastError = some message → EscapeFree message) := by
  have hclean := cleanEvent s.environment line persist
  simp only [Calculator.exec, Session.exec_eq_ofEvent, Session.Outcome.ofEvent]
  generalize Event.of frontend engine s.environment line persist = e at hclean ⊢
  cases hresult : e.result with
  | error message =>
    rw [Event.succeeded_of_error hresult, Record.note_of_error hresult]
    refine ⟨fun hok => absurd hok Bool.false_ne_true, fun hfree message' hmessage => ?_⟩
    obtain rfl := Option.some.inj hmessage
    exact hclean.message _ hresult hfree
  | ok result =>
    have hfree := (hclean.result _ hresult).2
    rw [Record.note_of_ok hresult]
    split
    · exact ⟨fun _ => hfree, by simp [Record.commit, Record.succeed]⟩
    · exact ⟨fun _ => hfree, by simp [Record.succeed]⟩

/-- Nothing that the session shows has an escape character, the message of its last line apart, and
no name that it knows has one. -/
structure Clean (s : Calculator η) : Prop where
  names : ∀ name, s.environment.Knows name → EscapeFree name
  lastResult : EscapeFree s.record.lastResult
  history : ∀ entry ∈ s.record.history, EscapeFree entry.input ∧ EscapeFree entry.result
  bindings : ∀ e ∈ s.record.bindings.entries, EscapeFree e.1 ∧ EscapeFree e.2

/-- A session that has just been started shows nothing. -/
theorem clean_of_names {s : Calculator η} (hrecord : s.record = {})
    (h : ∀ name ∈ s.environment.names, EscapeFree name) : Clean s := by
  refine ⟨fun name hname => h name hname.mem_names, ?_, ?_, ?_⟩ <;> rw [hrecord]
  · exact List.not_mem_nil
  · exact List.forall_mem_nil _
  · exact List.forall_mem_nil _

/-- What a session shows of its variables are names that it knows, and numbers. -/
theorem escapeFree_of_mem_bindings {env : Environment}
    (h : ∀ name, env.Knows name → EscapeFree name) :
    ∀ e ∈ (env.bindings.map Number.text).entries, EscapeFree e.1 ∧ EscapeFree e.2 := by
  intro e he
  obtain ⟨⟨name, value⟩, hmem, rfl⟩ := List.mem_map.mp he
  exact ⟨h name (.variable ((Entries.get?_eq_some_iff env.bindings.sorted).mpr hmem)),
    value.escapeFree_text⟩

/-- **The step lemma.**  Whatever line is run, a session stays clean. -/
theorem Clean.exec {s : Calculator η} (h : Clean s) (line : String) (persist : Bool) :
    Clean (s.exec line persist).session := by
  have hclean := cleanEvent s.environment line persist
  rw [Calculator.exec, Session.exec_eq_ofEvent, Session.Outcome.ofEvent]
  generalize Event.of frontend engine s.environment line persist = e at hclean ⊢
  have hnames : ∀ name, e.environment.Knows name → EscapeFree name := fun name hname =>
    (hclean.names name hname).elim (h.names name) id
  cases hresult : e.result with
  | error message =>
    rw [Record.note_of_error hresult]
    exact ⟨hnames, h.lastResult, h.history, h.bindings⟩
  | ok result =>
    obtain ⟨hinput, hfree⟩ := hclean.result _ hresult
    rw [Record.note_of_ok hresult]
    split
    · refine ⟨hnames, hfree, ?_, escapeFree_of_mem_bindings hnames⟩
      simp only [Record.commit]
      split
      · exact List.forall_mem_nil _
      · exact List.forall_mem_cons.mpr ⟨⟨hinput, hfree⟩, h.history⟩
    · exact ⟨hnames, hfree, h.history, h.bindings⟩

end Calculator

end Abacus
