import Abacus.Proofs.FiniteSeeds
import Abacus.Proofs.PipedLines
import Abacus.Proofs.Previews

/-!
# Names that have been bound can be used

A word may be a name, a function or a number in binary, and only the tokenizer tells which.  A name
that a statement binds has once been a token, so the tokenizer has read it as a name among others
on its line.  What has to be shown is that it does so again when the name stands alone, or as an
argument.

`IsName` says what makes a word a name, and it says so of the word alone.  Tokens that are names are
of that form (`isName_of_mem_tokensFrom`), and a word of that form is read as one token whatever
follows it, unless it could be a longer word (`tokensFrom_word`).

An environment gets to know a name only through a statement that has it as a token
(`Knows.of_apply`).  So in an environment that is reached from nothing by running lines, all names
are of that form (`isName_of_knows`).
-/

namespace Abacus

/-! ## Words -/

namespace Token

open Text (isBlank byteSize)

/-- A word that is read as a name: it is neither a function nor a number in binary. -/
structure IsName (word : List Char) : Prop where
  starts : ∃ c ∈ word.head?, startsWord c = true
  wordChars : ∀ c ∈ word, isWordChar c = true
  kind : wordKind word = .variable

/-- What a word starts with is no digit and no point. -/
theorem startsNumber_of_startsWord {c : Char} (h : startsWord c = true) (cs : List Char) :
    startsNumber c cs = false := by
  have hdigit : c.isDigit = false := by
    rw [Bool.eq_false_iff]
    intro hdigit
    unfold startsWord isLetter Char.isAlpha Char.isUpper Char.isLower at h
    unfold Char.isDigit at hdigit
    simp only [Bool.or_eq_true, Bool.and_eq_true, decide_eq_true_eq, beq_iff_eq, ge_iff_le,
      UInt32.le_iff_toNat_le] at h hdigit
    change (0x41 ≤ c.toNat ∧ c.toNat ≤ 0x5A ∨ 0x61 ≤ c.toNat ∧ c.toNat ≤ 0x7A) ∨ c = '_' at h
    change 0x30 ≤ c.toNat ∧ c.toNat ≤ 0x39 at hdigit
    rcases h with h | rfl
    · omega
    · exact absurd hdigit (by decide)
  have hpoint : (c == '.') = false := by
    rw [beq_eq_false_iff_ne]
    rintro rfl
    exact absurd h (by decide)
  rw [startsNumber, hdigit, hpoint, Bool.false_or, Bool.false_and]

/-- A word reaches as far as there are characters of words. -/
theorem lexeme_word {c : Char} {cs : List Char} (hc : startsWord c = true)
    (hcs : ∀ d ∈ cs, isWordChar d = true) {tail : List Char}
    (htail : ∀ d ∈ tail.head?, isWordChar d = false) (pos : Nat) :
    lexeme pos c (cs ++ tail) = .ok (wordKind (c :: cs), cs.length) := by
  have hword : (cs ++ tail).takeWhile isWordChar = cs := (Text.run_append hcs htail).1
  simp only [lexeme, startsNumber_of_startsWord hc, hc, hword, Bool.false_eq_true, if_false,
    if_true]

/-- A word at the start of a text is its first token. -/
theorem tokensFrom_word {c : Char} {cs : List Char} (hc : startsWord c = true)
    (hcs : ∀ d ∈ cs, isWordChar d = true) {tail : List Char}
    (htail : ∀ d ∈ tail.head?, isWordChar d = false) (pos : Nat) :
    tokensFrom pos (c :: cs ++ tail) =
      (tokensFrom (pos + byteSize (c :: cs)) tail).map
        (⟨wordKind (c :: cs), pos, String.ofList (c :: cs)⟩ :: ·) := by
  have hblank : isBlank c = false := by
    rw [Bool.eq_false_iff]
    intro hblank
    have hword := isWordChar_of_isBlank hblank
    rw [isWordChar_of_startsWord hc] at hword
    cases hword
  rw [List.cons_append, tokensFrom, hblank, lexeme_word hc hcs htail]
  simp only [Bool.false_eq_true, if_false, List.take_left', List.drop_left']
  cases tokensFrom (pos + byteSize (c :: cs)) tail <;> rfl

/-- A symbol of one character at the start of a text is its first token. -/
theorem tokensFrom_parenthesis {c : Char} {kind : Kind}
    (h : (c, kind) ∈ [('(', .openParen), (')', .closeParen)]) (tail : List Char) (pos : Nat) :
    tokensFrom pos (c :: tail) =
      (tokensFrom (pos + 1) tail).map (⟨kind, pos, String.singleton c⟩ :: ·) := by
  have hlexeme : isBlank c = false ∧ lexeme pos c tail = .ok (kind, 0) ∧ c.utf8Size = 1 := by
    simp only [List.mem_cons, Prod.mk.injEq, List.not_mem_nil, or_false] at h
    rcases h with ⟨rfl, rfl⟩ | ⟨rfl, rfl⟩ <;> exact ⟨rfl, rfl, rfl⟩
  obtain ⟨hblank, hlexeme, hsize⟩ := hlexeme
  rw [tokensFrom, hblank, hlexeme]
  simp only [Bool.false_eq_true, if_false, List.take_zero, List.drop_zero, Text.byteSize_cons,
    Text.byteSize_nil, hsize]
  cases tokensFrom (pos + 1) tail <;> rfl

theorem IsName.exists_cons {word : List Char} (h : IsName word) :
    ∃ c cs, word = c :: cs ∧ startsWord c = true ∧ ∀ d ∈ cs, isWordChar d = true := by
  obtain ⟨c, hc, hstarts⟩ := h.starts
  obtain ⟨cs, rfl⟩ := List.head?_eq_some_iff.mp hc
  exact ⟨c, cs, rfl, hstarts, (List.forall_mem_cons.mp h.wordChars).2⟩

/-- A name at the start of a text is its first token. -/
theorem tokensFrom_name {word : List Char} (h : IsName word) {tail : List Char}
    (htail : ∀ d ∈ tail.head?, isWordChar d = false) (pos : Nat) :
    tokensFrom pos (word ++ tail) =
      (tokensFrom (pos + byteSize word) tail).map (⟨.variable, pos, String.ofList word⟩ :: ·) := by
  obtain ⟨c, cs, rfl, hc, hcs⟩ := h.exists_cons
  rw [tokensFrom_word hc hcs htail, h.kind]

/-- A name that stands alone is one token. -/
theorem tokenize_name {name : String} (h : IsName name.toList) :
    tokenize name = .ok [⟨.variable, 0, name⟩, ⟨.ending, Text.size name, ""⟩] := by
  have htail : ∀ d ∈ ([] : List Char).head?, isWordChar d = false := nofun
  have hname := tokensFrom_name h htail 0
  rw [List.append_nil, Nat.zero_add, tokensFrom, String.ofList_toList] at hname
  exact hname

/-- The line that loads a slot. -/
def loadLine (slot : String) : String := "load(" ++ slot ++ ")"

/-- A name as the argument of a command is one token among four. -/
theorem tokenize_loadLine {slot : String} (h : IsName slot.toList) :
    ∃ stop, tokenize (loadLine slot) =
      .ok [⟨.load, 0, "load"⟩, ⟨.openParen, 4, "("⟩, ⟨.variable, 5, slot⟩,
        ⟨.closeParen, 5 + Text.size slot, ")"⟩, ⟨.ending, stop, ""⟩] := by
  have hchars : (loadLine slot).toList =
      'l' :: ['o', 'a', 'd'] ++ '(' :: (slot.toList ++ [')']) := by
    simp [loadLine]
  have hopen : ∀ d ∈ ('(' :: (slot.toList ++ [')'])).head?, isWordChar d = false := by
    simp only [List.head?_cons, Option.mem_some_iff]
    rintro d rfl
    decide
  have hclose : ∀ d ∈ [')'].head?, isWordChar d = false := by
    simp only [List.head?_cons, Option.mem_some_iff]
    rintro d rfl
    decide
  refine ⟨5 + Text.size slot + 1, ?_⟩
  have hword : ∀ d ∈ ['o', 'a', 'd'], isWordChar d = true := List.all_eq_true.mp (by decide)
  rw [tokenize, hchars, tokensFrom_word (by decide) hword hopen,
    tokensFrom_parenthesis (.head _), tokensFrom_name h hclose,
    tokensFrom_parenthesis (.tail _ (.head _)), tokensFrom, String.ofList_toList]
  rfl

/-- A token that is a name has been read from a word that is one. -/
theorem isName_of_lexeme {pos : Nat} {c : Char} {cs : List Char} {more : Nat}
    (h : lexeme pos c cs = .ok (.variable, more)) : IsName (c :: cs.take more) := by
  simp only [lexeme] at h
  split at h
  next => split at h <;> cases h
  next =>
    split at h
    next hc =>
      obtain ⟨hkind, rfl⟩ := Prod.mk.inj (Except.ok.inj h)
      have hword : cs.take (cs.takeWhile isWordChar).length = cs.takeWhile isWordChar :=
        (List.prefix_iff_eq_take.mp (List.takeWhile_prefix _)).symm
      rw [hword]
      refine ⟨⟨c, rfl, hc⟩, List.forall_mem_cons.mpr ⟨isWordChar_of_startsWord hc, ?_⟩, hkind⟩
      exact fun d hd => List.mem_takeWhile_imp hd
    next =>
      split at h
      next found hfound =>
        obtain rfl := Except.ok.inj h
        unfold symbol? at hfound
        split at hfound <;> cases hfound
      next => cases h

theorem isName_of_mem_tokensFrom {pos : Nat} {text : List Char} {ts : List Token}
    (h : tokensFrom pos text = .ok ts) {t : Token} (ht : t ∈ ts) (hkind : t.kind = .variable) :
    IsName t.text.toList := by
  fun_induction tokensFrom pos text generalizing ts with
  | case1 =>
    obtain rfl := Except.ok.inj h
    obtain rfl := List.mem_singleton.mp ht
    cases hkind
  | case2 pos c cs hc ih => exact ih h ht
  | case3 => cases h
  | case4 => cases h
  | case5 pos c cs hc kind more hlexeme piece rest hrest =>
    rename_i ih
    obtain rfl := Except.ok.inj h
    rcases List.mem_cons.mp ht with rfl | ht
    · subst hkind
      rw [String.toList_ofList]
      exact isName_of_lexeme hlexeme
    · exact ih hrest ht

/-- The words that name functions. -/
def keywords : List String := ["abs", "output", "save", "load", "clear"]

/-- No function has a name that is free to be bound. -/
theorem IsName.not_mem_keywords {name : String} (h : IsName name.toList) : name ∉ keywords := by
  intro hmem
  have hkind := h.kind
  simp only [keywords, List.mem_cons, List.not_mem_nil, or_false] at hmem
  rcases hmem with rfl | rfl | rfl | rfl | rfl <;> exact absurd hkind (by decide)

/-- A name with the looks of a number in binary is no literal. -/
theorem IsName.read?_eq_none {name : String} (h : IsName name.toList) {digits : List Char}
    (hname : name.toList = 'b' :: digits) (hne : digits ≠ [])
    (hdigits : ∀ d ∈ digits, d = '0' ∨ d = '1' ∨ d = '_') : Literal.read? name = none := by
  have hbinary : isBinaryWord name.toList = false := by
    rw [Bool.eq_false_iff]
    intro hbinary
    have hkind := h.kind
    rw [wordKind, if_pos hbinary] at hkind
    cases hkind
  have hall : digits.all (fun c => c == '0' || c == '1' || c == '_') = true :=
    List.all_eq_true.mpr fun d hd => by simpa [or_assoc] using hdigits d hd
  rw [hname, isBinaryWord, hall, ← hname, String.ofList_toList] at hbinary
  simpa [hne] using hbinary

end Token

/-! ## Environments -/

namespace Environment

open Token (IsName)

/-- The environment knows a name: as that of a variable, of a variable in a slot, or of a slot. -/
inductive Knows (env : Environment) (name : String) : Prop where
  | variable {value : Number} : env.bindings.get? name = some value → Knows env name
  | inSlot {slot : String} {bindings : Dict Number} {value : Number} :
      env.slots.get? slot = some bindings → bindings.get? name = some value → Knows env name
  | slot {bindings : Dict Number} : env.slots.get? name = some bindings → Knows env name

/-- The name that a statement makes known. -/
def introduced? : Statement → Option String
  | .assign name _ => some name
  | .save slot => some slot
  | .expr _ | .clear | .load _ | .output _ => none

/-- Where the slots are the same, only variables can be new. -/
theorem Knows.of_slots_eq {after : Environment} {name : String} (h : after.Knows name)
    {env : Environment} (hslots : after.slots = env.slots) :
    env.Knows name ∨ ∃ value, after.bindings.get? name = some value := by
  cases h with
  | «variable» hvalue => exact .inr ⟨_, hvalue⟩
  | inSlot hslot hvalue => exact .inl (.inSlot (hslots ▸ hslot) hvalue)
  | slot hslot => exact .inl (.slot (hslots ▸ hslot))

/-- The step lemma.  A statement makes known at most the name that it binds. -/
theorem Knows.of_apply {env after : Environment} {s : Statement} {result : String}
    (h : env.apply s = .ok (after, result)) {name : String} (hname : after.Knows name) :
    env.Knows name ∨ introduced? s = some name := by
  cases s <;> simp only [apply] at h
  case expr e =>
    split at h <;> cases h
    exact .inl hname
  case assign bound e =>
    split at h <;> cases h
    rcases hname.of_slots_eq (.refl env.slots) with hknown | ⟨value, hvalue⟩
    · exact .inl hknown
    · rw [Dict.get?_insert] at hvalue
      split at hvalue
      next heq => exact .inr (congrArg some heq)
      next => exact .inl (.variable hvalue)
  case clear =>
    cases h
    rcases hname.of_slots_eq (.refl env.slots) with hknown | ⟨value, hvalue⟩
    · exact .inl hknown
    · cases hvalue
  case save slot =>
    cases h
    cases hname with
    | «variable» hvalue => exact .inl (.variable hvalue)
    | inSlot hslot hvalue =>
      rw [Dict.get?_insert] at hslot
      split at hslot
      next =>
        obtain rfl := Option.some.inj hslot
        exact .inl (.variable hvalue)
      next => exact .inl (.inSlot hslot hvalue)
    | slot hslot =>
      rw [Dict.get?_insert] at hslot
      split at hslot
      next heq => exact .inr (congrArg some heq)
      next => exact .inl (.slot hslot)
  case load slot =>
    split at h
    next bindings hloaded =>
      cases h
      rcases hname.of_slots_eq (.refl env.slots) with hknown | ⟨value, hvalue⟩
      · exact .inl hknown
      · exact .inl (.inSlot hloaded hvalue)
    next => cases h
  case output radix =>
    cases h
    rcases hname.of_slots_eq (.refl env.slots) with hknown | ⟨value, hvalue⟩
    · exact .inl hknown
    · exact .inl (.variable hvalue)

/-- The name that a statement binds is among its tokens. -/
theorem exists_token_of_introduced? {ts : List Token} {s : Statement}
    (hs : Statement.parse ts = .ok s) {name : String} (h : introduced? s = some name) :
    ∃ t ∈ ts, t.kind = .variable ∧ t.text = name := by
  have hsub := Statement.body_subset ts
  have hspells := (Statement.spells_of_parseBody hs).2
  revert hspells hsub
  generalize Statement.body ts = us
  intro hsub hspells
  cases hspells with
  | assign hv =>
    obtain rfl := Option.some.inj h
    exact ⟨_, hsub List.mem_cons_self, hv, rfl⟩
  | @save t l v r _ _ hv =>
    obtain rfl := Option.some.inj h
    exact ⟨v, hsub (by simp), hv, rfl⟩
  | clear | clearArgument | load | output | expr => cases h

/-- What a line makes known is a token of it. -/
theorem Knows.of_execute {env : Environment} {ts : List Token} {persist : Bool} {name : String}
    (h : (env.execute ts persist).1.Knows name) :
    env.Knows name ∨ ∃ t ∈ ts, t.kind = .variable ∧ t.text = name := by
  cases persist with
  | false => exact .inl (execute_preview env ts ▸ h)
  | true =>
    cases hs : Statement.parse ts with
    | error e =>
      rw [execute, run, hs] at h
      exact .inl h
    | ok s =>
      rw [execute_of_parse hs] at h
      cases happly : env.apply s with
      | error e =>
        rw [happly] at h
        exact .inl h
      | ok x =>
        rw [happly] at h
        exact (Knows.of_apply happly h).imp_right (exists_token_of_introduced? hs)

end Environment

namespace Calculator

open Token (IsName)

variable {η : Type}

/-- The execution that a call asks for runs the tokens of a text. -/
theorem tokenize_of_execution? {call : Session.Call η} {x : List Token × Bool}
    (h : call.execution? frontend = some x) :
    ∃ input, Token.tokenize input = .ok x.1 := by
  cases call with
  | exec input persist =>
    obtain ⟨ts, hts, rfl⟩ := Option.map_eq_some_iff.mp h
    refine ⟨input, ?_⟩
    rcases parse_cases input with ⟨-, message, hparse⟩ | ⟨ts', s, -, hparse, htokens, -⟩
    · rw [hparse] at hts
      cases hts
    · rw [hparse] at hts
      obtain rfl := Option.some.inj hts
      exact htokens
  | parse input => cases h
  | onSave hook => cases h

/-- **What is known after a fresh start is a name.**  The run lemma: whatever calls are made on a
session that starts from nothing, each name that its environment knows is read as a name. -/
theorem isName_of_knows_run (calls : List (Session.Call η)) :
    ∀ name, (Session.run frontend engine (start "") calls).1.environment.Knows name →
      IsName name.toList := by
  rw [Session.environment_run]
  refine List.foldlRecOn (motive := fun env : Environment => ∀ name, env.Knows name →
    IsName name.toList) _ _ (fun name h => ?_) fun env henv x hx name h => ?_
  · -- A fresh environment knows nothing.
    cases h with
    | «variable» hvalue => cases hvalue
    | inSlot hslot => cases hslot
    | slot hslot => cases hslot
  · rcases Environment.Knows.of_execute h with hknown | ⟨t, ht, hkind, rfl⟩
    · exact henv name hknown
    · obtain ⟨call, -, hcall⟩ := List.mem_filterMap.mp hx
      obtain ⟨input, hinput⟩ := tokenize_of_execution? hcall
      exact Token.isName_of_mem_tokensFrom hinput ht hkind

/-! ## Using a name -/

/-- A statement that can be applied succeeds as a line, be it kept or not, and has its result. -/
theorem exec_of_apply {line : String} {st : Statement} (h : statement? line = some st)
    {s : Calculator η} {after : Environment} {result : String}
    (happly : s.environment.apply st = .ok (after, result)) (persist : Bool) :
    (s.exec line persist).ok = true ∧
      (s.exec line persist).session.record.lastResult = result := by
  obtain ⟨hok, -, hresult, -⟩ := exec_of_ok h happly
  cases persist with
  | true => exact ⟨hok, hresult⟩
  | false =>
    obtain ⟨hsameOk, hsameResult, -⟩ := Session.exec_false frontend honest_engine s line
    exact ⟨hsameOk.trans hok, hsameResult.trans hresult⟩

theorem statement?_name {name : String} (h : IsName name.toList) :
    statement? name = some (.expr (.variable name)) := by
  rw [statement?, Token.tokenize_name h]
  rfl

theorem parse_of_tokenize {line : String} {ts : List Token} {st : Statement}
    (htokens : Token.tokenize line = .ok ts) (hst : Statement.parse ts = .ok st) :
    parse line = .ok ts := by
  simp only [parse, htokens, hst]

theorem parse_loadLine {slot : String} (h : IsName slot.toList) :
    ∃ ts, parse (Token.loadLine slot) = .ok ts ∧ Statement.parse ts = .ok (.load slot) := by
  obtain ⟨stop, htokens⟩ := Token.tokenize_loadLine h
  exact ⟨_, parse_of_tokenize htokens rfl, rfl⟩

theorem statement?_loadLine {slot : String} (h : IsName slot.toList) :
    statement? (Token.loadLine slot) = some (.load slot) := by
  obtain ⟨stop, htokens⟩ := Token.tokenize_loadLine h
  rw [statement?, htokens]
  rfl

/-- **Every bound name can be used again.**  Make any calls on a session that starts from nothing.

* A name that its environment then knows, be it that of a variable, of a variable in a slot or of a
  slot, is read as one token when it stands alone, and that token is a name.  No function has this
  name, and if it starts like a number in binary it is none.
* The name of a variable is a line that succeeds, whether it is kept or not, and its result is the
  value, written in the present format.
* A slot can be loaded: the line that loads it is parsed and succeeds. -/
theorem known_names_usable (calls : List (Session.Call η)) :
    let s : Calculator η := (Session.run frontend engine (start "") calls).1
    let env := s.environment
    (∀ name, env.Knows name →
      Token.tokenize name = .ok [⟨.variable, 0, name⟩, ⟨.ending, Text.size name, ""⟩] ∧
        name ∉ ["abs", "output", "save", "load", "clear"] ∧
        ∀ digits, name.toList = 'b' :: digits → digits ≠ [] →
          (∀ d ∈ digits, d = '0' ∨ d = '1' ∨ d = '_') → Literal.read? name = none) ∧
      (∀ name value persist, env.bindings.get? name = some value →
        (s.exec name persist).ok = true ∧
          (s.exec name persist).session.record.lastResult = env.radix.render value) ∧
      ∀ slot bindings persist, env.slots.get? slot = some bindings →
        (∃ ts, parse ("load(" ++ slot ++ ")") = .ok ts ∧ Statement.parse ts = .ok (.load slot)) ∧
          (s.exec ("load(" ++ slot ++ ")") persist).ok = true := by
  intro s env
  have hnames : ∀ name, env.Knows name → IsName name.toList := isName_of_knows_run calls
  refine ⟨fun name h => ?_, fun name value persist hvalue => ?_,
    fun slot bindings persist hslot => ?_⟩
  · have hname := hnames name h
    exact ⟨Token.tokenize_name hname, hname.not_mem_keywords,
      fun digits hdigits hne hall => hname.read?_eq_none hdigits hne hall⟩
  · have happly : env.apply (.expr (.variable name)) = .ok (env, env.radix.render value) := by
      simp only [Environment.apply, Expr.eval, hvalue]
    exact exec_of_apply (statement?_name (hnames name (.variable hvalue))) happly persist
  · have hname := hnames slot (.slot hslot)
    have happly : env.apply (.load slot) = .ok ({ env with bindings }, s!"loaded {slot}") := by
      simp only [Environment.apply, hslot]
    exact ⟨parse_loadLine hname, (exec_of_apply (statement?_loadLine hname) happly persist).1⟩

section Examples

/-- Lines with names that start like numbers in binary. -/
private def oddLines : List (Session.Call Unit) :=
  [.exec "b_ = 10" true, .exec "output(hex)" true, .exec "save(b102)" true, .exec "c = b_" false]

private def oddlyNamed : Calculator Unit :=
  (Session.run frontend engine (start "") oddLines).1

/-- `b_` is no number, and it is known as a variable; `b102` is known as a slot. -/
theorem known_names_usable_binary_looks :
    oddlyNamed.environment.bindings.get? "b_" = some (.int 10) ∧
      Literal.read? "b_" = none ∧
      (oddlyNamed.exec "b_" false).ok = true ∧
      (oddlyNamed.exec "b_" false).session.record.lastResult = "0xa" ∧
      (oddlyNamed.exec ("load(" ++ "b102" ++ ")") true).ok = true := by
  have hvalue : oddlyNamed.environment.bindings.get? "b_" = some (.int 10) := by decide +kernel
  obtain ⟨bindings, hslot⟩ : ∃ bindings, oddlyNamed.environment.slots.get? "b102" = some bindings :=
    Option.isSome_iff_exists.mp (by decide +kernel)
  have hrender : oddlyNamed.environment.radix.render (.int 10) = "0xa" := by decide +kernel
  obtain ⟨hread, huse, hload⟩ := known_names_usable oddLines
  obtain ⟨hok, hresult⟩ := huse "b_" (.int 10) false hvalue
  exact ⟨hvalue, (hread "b_" (.variable hvalue)).2.2 ['_'] rfl (by decide) (by simp), hok,
    hresult.trans hrender, (hload "b102" bindings true hslot).2⟩

end Examples

end Calculator

end Abacus
