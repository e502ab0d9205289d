import Abacus.Proofs.Parsing

/-!
# Statements are read by the grammar

The parser of statements decides by the first token, or by the first two, and is then
committed.  The grammar is a choice of rules.  That the two agree rests on one fact:
an expression contains none of the tokens that the parser decides by
(`Derives.not_mem_foreign`), so at most one rule can ever apply.

## Why a statement has one reading

Uniqueness concerns the grammar alone, also for numbers that the parser refuses.  Writing
a zero in place of each such number (`legible`) changes no tree, and makes the tokens
acceptable.  Two readings of the same tokens are then both what the parser answers.

That the tree stays is a case of something more general: trees depend on what the grammar
takes from the tokens (`sense`), and on nothing else about them (`Spells.congr`).
-/

namespace Abacus

namespace Grammar

/-- The same token, with a zero in place of a number that is no literal. -/
def legible (t : Token) : Token :=
  if t.kind = .number ∧ Literal.read? t.text = none then { t with text := "0" } else t

theorem kind_legible (t : Token) : (legible t).kind = t.kind := by
  unfold legible
  split <;> rfl

theorem legible_of_ne {t : Token} (h : t.kind ≠ .number) : legible t = t :=
  if_neg fun h' => h h'.1

theorem read?_zero : Literal.read? "0" = some (.int 0) := by decide +kernel

theorem isSome_read?_legible {t : Token} (h : t.kind = .number) :
    (Literal.read? (legible t).text).isSome := by
  unfold legible
  split
  next => rw [read?_zero]; rfl
  next hn =>
    rw [Option.isSome_iff_ne_none]
    exact fun h' => hn ⟨h, h'⟩

theorem numberOf_legible (t : Token) : numberOf (legible t) = numberOf t := by
  unfold legible
  split
  next hn => rw [numberOf, numberOf, hn.2, read?_zero]; rfl
  next => rfl

theorem readable_map_legible (ts : List Token) : Readable (ts.map legible) := by
  intro t ht
  obtain ⟨u, -, rfl⟩ := List.mem_map.mp ht
  exact fun hu => isSome_read?_legible (kind_legible u ▸ hu)

/-! ## What the grammar sees of a token -/

/-- What the grammar takes from a token: its kind, the number it stands for, and its text unless
it is a number.  Where the token stands is not part of it. -/
def sense (t : Token) : Token.Kind × Number × String :=
  (t.kind, numberOf t, if t.kind = .number then "" else t.text)

theorem kind_eq_of_sense {t u : Token} (h : sense u = sense t) : u.kind = t.kind :=
  congrArg Prod.fst h

theorem numberOf_eq_of_sense {t u : Token} (h : sense u = sense t) : numberOf u = numberOf t :=
  congrArg (fun x => x.2.1) h

theorem text_eq_of_sense {t u : Token} (h : sense u = sense t) (ht : t.kind ≠ .number) :
    u.text = t.text := by
  have hu : u.kind ≠ .number := by rwa [kind_eq_of_sense h]
  simpa only [sense, if_neg ht, if_neg hu] using congrArg (fun x => x.2.2) h

theorem sense_legible (t : Token) : sense (legible t) = sense t := by
  by_cases ht : t.kind = .number
  · simp only [sense, kind_legible, numberOf_legible, ht, if_true]
  · rw [legible_of_ne ht]

theorem map_sense_legible (ts : List Token) : (ts.map legible).map sense = ts.map sense := by
  rw [List.map_map]
  exact List.map_congr_left fun t _ => sense_legible t

/-- Tokens of the same sense are an expression with the same tree. -/
theorem Derives.congr {c : Category} {ts us : List Token} {e : Expr} (h : Derives c ts e)
    (hus : us.map sense = ts.map sense) : Derives c us e := by
  have hkind {t u : Token} {k : Token.Kind} (ht : t.kind = k) (hu : sense u = sense t) :
      u.kind = k := (kind_eq_of_sense hu).trans ht
  induction h generalizing us with
  | next _ ih => exact .next (ih hus)
  | binary _ hop _ iha ihb =>
    rw [List.map_append, List.map_cons, List.map_eq_append_iff] at hus
    obtain ⟨ts', rest, rfl, hts, hrest⟩ := hus
    obtain ⟨t', us', rfl, ht, hus⟩ := List.map_eq_cons_iff.mp hrest
    exact .binary (iha hts) (by rwa [kind_eq_of_sense ht]) (ihb hus)
  | pow _ hop _ iha ihb =>
    rw [List.map_append, List.map_cons, List.map_eq_append_iff] at hus
    obtain ⟨ts', rest, rfl, hts, hrest⟩ := hus
    obtain ⟨t', us', rfl, ht, hus⟩ := List.map_eq_cons_iff.mp hrest
    exact .pow (iha hts) (hkind hop ht) (ihb hus)
  | negate hk _ ih =>
    obtain ⟨t', us', rfl, ht, hus⟩ := List.map_eq_cons_iff.mp hus
    exact .negate (hkind hk ht) (ih hus)
  | plus hk _ ih =>
    obtain ⟨t', us', rfl, ht, hus⟩ := List.map_eq_cons_iff.mp hus
    exact .plus (hkind hk ht) (ih hus)
  | complement hk _ ih =>
    obtain ⟨t', us', rfl, ht, hus⟩ := List.map_eq_cons_iff.mp hus
    exact .complement (hkind hk ht) (ih hus)
  | literal hk =>
    obtain ⟨t', rfl, ht⟩ := List.map_eq_singleton_iff.mp hus
    rw [← numberOf_eq_of_sense ht]
    exact .literal (hkind hk ht)
  | name hk =>
    obtain ⟨t', rfl, ht⟩ := List.map_eq_singleton_iff.mp hus
    rw [← text_eq_of_sense ht (by rw [hk]; decide)]
    exact .name (hkind hk ht)
  | group hl _ hr ih =>
    rw [List.map_cons, List.map_append, List.map_eq_cons_iff] at hus
    obtain ⟨l', rest, rfl, hl', hrest⟩ := hus
    obtain ⟨ts', rest, rfl, hts, hrest⟩ := List.map_eq_append_iff.mp hrest
    obtain ⟨r', rfl, hr'⟩ := List.map_eq_singleton_iff.mp hrest
    exact .group (hkind hl hl') (ih hts) (hkind hr hr')
  | absolute ha hl _ hr ih =>
    rw [List.map_cons, List.map_cons, List.map_append, List.map_eq_cons_iff] at hus
    obtain ⟨a', rest, rfl, ha', hrest⟩ := hus
    obtain ⟨l', rest, rfl, hl', hrest⟩ := List.map_eq_cons_iff.mp hrest
    obtain ⟨ts', rest, rfl, hts, hrest⟩ := List.map_eq_append_iff.mp hrest
    obtain ⟨r', rfl, hr'⟩ := List.map_eq_singleton_iff.mp hrest
    exact .absolute (hkind ha ha') (hkind hl hl') (ih hts) (hkind hr hr')

/-- A command with its name in parentheses consists of four tokens, whatever else they are. -/
theorem eq_four_of_map_sense {us : List Token} {t l v r : Token}
    (h : us.map sense = [t, l, v, r].map sense) :
    ∃ t' l' v' r', us = [t', l', v', r'] ∧ sense t' = sense t ∧ sense l' = sense l ∧
      sense v' = sense v ∧ sense r' = sense r := by
  simp only [List.map_cons, List.map_nil, List.map_eq_cons_iff, List.map_eq_nil_iff] at h
  obtain ⟨t', _, rfl, ht, l', _, rfl, hl, v', _, rfl, hv, r', _, rfl, hr, rfl⟩ := h
  exact ⟨t', l', v', r', rfl, ht, hl, hv, hr⟩

/-- Tokens of the same sense are the same statement. -/
theorem Spells.congr {ts us : List Token} {s : Statement} (h : Spells ts s)
    (hus : us.map sense = ts.map sense) : Spells us s := by
  have hkind {t u : Token} {k : Token.Kind} (ht : t.kind = k) (hu : sense u = sense t) :
      u.kind = k := (kind_eq_of_sense hu).trans ht
  have hname {v w : Token} (hv : v.kind = .variable) (hw : sense w = sense v) : w.text = v.text :=
    text_eq_of_sense hw (by rw [hv]; decide)
  cases h with
  | clear ht =>
    obtain ⟨t', rfl, ht'⟩ := List.map_eq_singleton_iff.mp hus
    exact .clear (hkind ht ht')
  | clearArgument ht hl hr =>
    obtain ⟨t', rest, rfl, ht', hrest⟩ := List.map_eq_cons_iff.mp hus
    obtain ⟨l', rest, rfl, hl', hrest⟩ := List.map_eq_cons_iff.mp hrest
    obtain ⟨r', rfl, hr'⟩ := List.map_eq_singleton_iff.mp hrest
    exact .clearArgument (hkind ht ht') (hkind hl hl') (hkind hr hr')
  | save ht hl hv hr =>
    obtain ⟨t', l', v', r', rfl, ht', hl', hv', hr'⟩ := eq_four_of_map_sense hus
    rw [← hname hv hv']
    exact .save (hkind ht ht') (hkind hl hl') (hkind hv hv') (hkind hr hr')
  | load ht hl hv hr =>
    obtain ⟨t', l', v', r', rfl, ht', hl', hv', hr'⟩ := eq_four_of_map_sense hus
    rw [← hname hv hv']
    exact .load (hkind ht ht') (hkind hl hl') (hkind hv hv') (hkind hr hr')
  | output ht hl hv hf hr =>
    obtain ⟨t', l', v', r', rfl, ht', hl', hv', hr'⟩ := eq_four_of_map_sense hus
    refine .output (hkind ht ht') (hkind hl hl') (hkind hv hv') ?_ (hkind hr hr')
    rwa [hname hv hv']
  | assign hv ht he =>
    obtain ⟨v', rest, rfl, hv', hrest⟩ := List.map_eq_cons_iff.mp hus
    obtain ⟨t', us', rfl, ht', hus⟩ := List.map_eq_cons_iff.mp hrest
    rw [← hname hv hv']
    exact .assign (hkind hv hv') (hkind ht ht') (he.congr hus)
  | expr he => exact .expr (he.congr hus)

theorem mem_formats_iff {s : String} {r : Radix} :
    (s, r) ∈ formats ↔ Radix.ofName? s = some r := by
  rw [Radix.ofName?_eq_some_iff]
  cases r <;> simp [formats, Radix.name]

end Grammar

namespace Statement

open Grammar

/-! ## Tokens before the end -/

theorem body_subset (ts : List Token) : body ts ⊆ ts :=
  (List.takeWhile_sublist _).subset

theorem body_append {ts : List Token} (hts : ∀ t ∈ ts, t.kind ≠ .ending) (us : List Token) :
    body (ts ++ us) = ts ++ body us :=
  List.takeWhile_append_of_pos fun t ht => decide_eq_true (hts t ht)

theorem body_eq_self {ts : List Token} (hts : ∀ t ∈ ts, t.kind ≠ .ending) : body ts = ts := by
  have happend := body_append hts []
  rw [List.append_nil] at happend
  exact happend.trans (List.append_nil ts)

theorem body_append_ending {ts : List Token} (hts : ∀ t ∈ ts, t.kind ≠ .ending) (pos : Nat) :
    body (ts ++ [⟨.ending, pos, ""⟩]) = ts := by
  rw [body_append hts]
  exact List.append_nil ts

theorem stop_append_ending {ts : List Token} (hts : ∀ t ∈ ts, t.kind ≠ .ending) (pos : Nat) :
    stop (ts ++ [⟨.ending, pos, ""⟩]) = pos := by
  have hnone : ts.find? (fun t => decide (t.kind = .ending)) = none := by
    rw [List.find?_eq_none]
    exact fun t ht => by simpa using hts t ht
  rw [stop, List.find?_append, hnone]
  rfl

/-! ## The parts of a command -/

theorem bind_eq_ok_iff {ε α β : Type} {x : Except ε α} {f : α → Except ε β} {b : β} :
    x >>= f = .ok b ↔ ∃ a, x = .ok a ∧ f a = .ok b := by
  cases x with
  | error e => simp [bind, Except.bind]
  | ok a => simp [bind, Except.bind]

theorem toOption_eq_some_iff {ε α : Type} {x : Except ε α} {a : α} :
    x.toOption = some a ↔ x = .ok a := by
  cases x <;> simp [Except.toOption]

theorem expect_eq_ok_iff {kind : Token.Kind} {expected : Expected} {stop : Nat}
    {ts rest : List Token} {t : Token} :
    expect kind expected stop ts = .ok (t, rest) ↔ ts = t :: rest ∧ t.kind = kind := by
  cases ts with
  | nil => simp [expect]
  | cons u us =>
    rw [expect]
    split
    next hu =>
      simp only [Except.ok.injEq, Prod.mk.injEq, List.cons.injEq]
      constructor
      · rintro ⟨rfl, rfl⟩; exact ⟨⟨rfl, rfl⟩, hu⟩
      · exact fun h => h.1
    next hu =>
      simp only [reduceCtorEq, List.cons.injEq, false_iff]
      rintro ⟨⟨rfl, -⟩, ht⟩
      exact hu ht

theorem expectEnd_eq_ok_iff {ts : List Token} {u : Unit} : expectEnd ts = .ok u ↔ ts = [] := by
  cases ts <;> simp [expectEnd]

theorem nameArgument_eq_ok_iff {expected : Expected} {stop : Nat} {ts rest : List Token}
    {v : Token} :
    nameArgument expected stop ts = .ok (v, rest) ↔
      ∃ l r, ts = l :: v :: r :: rest ∧ l.kind = .openParen ∧ v.kind = .variable ∧
        r.kind = .closeParen := by
  simp only [nameArgument, bind_eq_ok_iff, Prod.exists, expect_eq_ok_iff, pure, Except.pure,
    Except.ok.injEq, Prod.mk.injEq]
  constructor
  · rintro ⟨l, _, ⟨rfl, hl⟩, v', _, ⟨rfl, hv⟩, r, _, ⟨rfl, hr⟩, rfl, rfl⟩
    exact ⟨l, r, rfl, hl, hv, hr⟩
  · rintro ⟨l, r, rfl, hl, hv, hr⟩
    exact ⟨l, _, ⟨rfl, hl⟩, v, _, ⟨rfl, hv⟩, r, _, ⟨rfl, hr⟩, rfl, rfl⟩

/-- A command that consists of a name in parentheses. -/
theorem nameCommand_eq_ok_iff {expected : Expected} {stop : Nat} {ts : List Token}
    {f : Token → Statement} {s : Statement} :
    (nameArgument expected stop ts >>= fun x => expectEnd x.2 >>= fun _ => pure (f x.1)) = .ok s ↔
      ∃ l v r, ts = [l, v, r] ∧ l.kind = .openParen ∧ v.kind = .variable ∧
        r.kind = .closeParen ∧ s = f v := by
  simp only [bind_eq_ok_iff, Prod.exists, nameArgument_eq_ok_iff, expectEnd_eq_ok_iff, pure,
    Except.pure, Except.ok.injEq]
  constructor
  · rintro ⟨v, _, ⟨l, r, rfl, hl, hv, hr⟩, _, rfl, rfl⟩
    exact ⟨l, v, r, rfl, hl, hv, hr, rfl⟩
  · rintro ⟨l, v, r, rfl, hl, hv, hr, rfl⟩
    exact ⟨v, [], ⟨l, r, rfl, hl, hv, hr⟩, (), rfl, rfl⟩

/-- After `clear` comes nothing, or an empty pair of parentheses. -/
theorem emptyArgument_eq_ok_nil_iff {stop : Nat} {ts : List Token} :
    emptyArgument stop ts = .ok [] ↔
      ts = [] ∨ ∃ l r, ts = [l, r] ∧ l.kind = .openParen ∧ r.kind = .closeParen := by
  cases ts with
  | nil => simp [emptyArgument]
  | cons l ts =>
    rw [emptyArgument]
    split
    next hl =>
      simp only [bind_eq_ok_iff, Prod.exists, expect_eq_ok_iff, pure, Except.pure,
        Except.ok.injEq]
      constructor
      · rintro ⟨r, _, ⟨rfl, hr⟩, rfl⟩
        exact .inr ⟨l, r, rfl, hl, hr⟩
      · rintro (h | ⟨l', r, h, -, hr⟩)
        · cases h
        · obtain ⟨rfl, rfl⟩ := List.cons.inj h
          exact ⟨r, [], ⟨rfl, hr⟩, rfl⟩
    next hl =>
      simp only [Except.ok.injEq, reduceCtorEq, false_or, false_iff]
      rintro ⟨l', r, h, hl', -⟩
      obtain ⟨rfl, -⟩ := List.cons.inj h
      exact hl hl'

/-! ## Statements -/

/-- Tokens without numbers are readable. -/
theorem readable_of_forall_ne {ts : List Token} (h : ∀ t ∈ ts, t.kind ≠ .number) :
    Readable ts := fun t ht hn => absurd hn (h t ht)

/-- The tokens of an expression are read as one. -/
theorem parseBody_of_derives {stop : Nat} {ts : List Token} {e : Expr} (hread : Readable ts)
    (h : Derives .or ts e) : parseBody stop ts = .ok (.expr e) := by
  have hparse : Expr.Parser.parse stop ts = .ok e := Expr.Parser.parse_eq_ok_iff.mpr ⟨hread, h⟩
  have hexpr : (Expr.Parser.parse stop ts >>= fun e => pure (Statement.expr e)) =
      .ok (Statement.expr e) := by rw [hparse]; rfl
  cases ts with
  | nil => simp [Expr.Parser.parse, Expr.Parser.run, Expr.Parser.finish] at hparse
  | cons t rest =>
    have ht := h.not_mem_foreign t List.mem_cons_self
    cases hk : t.kind
    case ending | assign | output | save | load | clear => exact absurd (hk ▸ by decide) ht
    case «variable» =>
      cases rest with
      | nil => simpa only [parseBody, hk] using hexpr
      | cons u value =>
        have hu := h.not_mem_foreign u (List.mem_cons_of_mem _ List.mem_cons_self)
        have hne : u.kind ≠ .assign := fun h' => hu (h' ▸ by decide)
        simpa only [parseBody, hk, if_neg hne] using hexpr
    all_goals simpa only [parseBody, hk] using hexpr

/-- What is read as an expression is one. -/
theorem spells_of_parse_expr {stop : Nat} {ts : List Token} {s : Statement}
    (h : (Expr.Parser.parse stop ts >>= fun e => pure (Statement.expr e)) = .ok s) :
    Readable ts ∧ Spells ts s := by
  obtain ⟨e, he, hs⟩ := bind_eq_ok_iff.mp h
  obtain rfl := Except.ok.inj hs
  obtain ⟨hread, hd⟩ := Expr.Parser.parse_eq_ok_iff.mp he
  exact ⟨hread, .expr hd⟩

/-- What the parser reads, the grammar spells. -/
theorem spells_of_parseBody {stop : Nat} {ts : List Token} {s : Statement}
    (h : parseBody stop ts = .ok s) : Readable ts ∧ Spells ts s := by
  cases ts with
  | nil => cases h
  | cons t rest =>
    cases hk : t.kind <;> simp only [parseBody, hk] at h
    case clear =>
      obtain ⟨rest', harg, h⟩ := bind_eq_ok_iff.mp h
      obtain ⟨_, hend, h⟩ := bind_eq_ok_iff.mp h
      obtain rfl := Except.ok.inj h
      obtain rfl := expectEnd_eq_ok_iff.mp hend
      rcases emptyArgument_eq_ok_nil_iff.mp harg with rfl | ⟨l, r, rfl, hl, hr⟩
      · exact ⟨readable_of_forall_ne (by simp [hk]), .clear hk⟩
      · exact ⟨readable_of_forall_ne (by simp [hk, hl, hr]), .clearArgument hk hl hr⟩
    case save =>
      obtain ⟨l, v, r, rfl, hl, hv, hr, rfl⟩ :=
        (nameCommand_eq_ok_iff (f := fun v => .save v.text)).mp h
      exact ⟨readable_of_forall_ne (by simp [hk, hl, hv, hr]), .save hk hl hv hr⟩
    case load =>
      obtain ⟨l, v, r, rfl, hl, hv, hr, rfl⟩ :=
        (nameCommand_eq_ok_iff (f := fun v => .load v.text)).mp h
      exact ⟨readable_of_forall_ne (by simp [hk, hl, hv, hr]), .load hk hl hv hr⟩
    case output =>
      obtain ⟨⟨v, rest'⟩, harg, hrest⟩ := bind_eq_ok_iff.mp h
      obtain ⟨l, r, rfl, hl, hv, hr⟩ := nameArgument_eq_ok_iff.mp harg
      cases hf : Radix.ofName? v.text with
      | none => simp [hf] at hrest
      | some radix =>
        simp only [hf] at hrest
        obtain ⟨_, hend, hs⟩ := bind_eq_ok_iff.mp hrest
        obtain rfl := Except.ok.inj hs
        obtain rfl := expectEnd_eq_ok_iff.mp hend
        exact ⟨readable_of_forall_ne (by simp [hk, hl, hv, hr]),
          .output hk hl hv (mem_formats_iff.mpr hf) hr⟩
    case «variable» =>
      cases rest with
      | nil => exact spells_of_parse_expr h
      | cons u value =>
        simp only at h
        split at h
        next hu =>
          obtain ⟨e, he, h⟩ := bind_eq_ok_iff.mp h
          obtain rfl := Except.ok.inj h
          obtain ⟨hread, hd⟩ := Expr.Parser.parse_eq_ok_iff.mp he
          refine ⟨?_, .assign hk hu hd⟩
          exact List.forall_mem_cons.mpr ⟨by simp [hk], List.forall_mem_cons.mpr
            ⟨by simp [hu], hread⟩⟩
        next => exact spells_of_parse_expr h
    all_goals exact spells_of_parse_expr h

/-- What the grammar spells, the parser reads. -/
theorem parseBody_of_spells {stop : Nat} {ts : List Token} {s : Statement}
    (hread : Readable ts) (h : Spells ts s) : parseBody stop ts = .ok s := by
  cases h with
  | @clear t ht => simp only [parseBody, ht, emptyArgument]; rfl
  | @clearArgument t l r ht hl hr =>
    have harg : emptyArgument stop [l, r] = .ok [] :=
      emptyArgument_eq_ok_nil_iff.mpr (.inr ⟨l, r, rfl, hl, hr⟩)
    simp only [parseBody, ht, harg]
    rfl
  | @save t l v r ht hl hv hr =>
    simp only [parseBody, ht]
    exact (nameCommand_eq_ok_iff (f := fun v => .save v.text)).mpr
      ⟨l, v, r, rfl, hl, hv, hr, rfl⟩
  | @load t l v r ht hl hv hr =>
    simp only [parseBody, ht]
    exact (nameCommand_eq_ok_iff (f := fun v => .load v.text)).mpr
      ⟨l, v, r, rfl, hl, hv, hr, rfl⟩
  | @output t l v r radix ht hl hv hf hr =>
    have harg : nameArgument .outputFormat stop [l, v, r] = .ok (v, []) :=
      nameArgument_eq_ok_iff.mpr ⟨l, r, rfl, hl, hv, hr⟩
    simp only [parseBody, ht, harg, bind, Except.bind, mem_formats_iff.mp hf]
    rfl
  | @assign v t ts e hv ht he =>
    have hvalue : Readable ts := (List.forall_mem_cons.mp (List.forall_mem_cons.mp hread).2).2
    have hparse : Expr.Parser.parse stop ts = .ok e :=
      Expr.Parser.parse_eq_ok_iff.mpr ⟨hvalue, he⟩
    simp only [parseBody, hv, ht, if_true, hparse]
    rfl
  | expr he => exact parseBody_of_derives hread he

/-- A statement has one reading, even where a number of it is no literal. -/
theorem spells_unique {ts : List Token} {s s' : Statement} (h : Spells ts s)
    (h' : Spells ts s') : s = s' := by
  have hs : parseBody 0 (ts.map legible) = .ok s :=
    parseBody_of_spells (readable_map_legible ts) (h.congr (map_sense_legible ts))
  have hs' : parseBody 0 (ts.map legible) = .ok s' :=
    parseBody_of_spells (readable_map_legible ts) (h'.congr (map_sense_legible ts))
  exact Except.ok.inj (hs.symm.trans hs')

/-- **The parser is the grammar.**  A token list is read as a statement exactly if its
tokens before the end spell that statement and all numbers among them are literals; and no
tokens spell two statements. -/
theorem parse_eq_ok_iff_spells (ts : List Token) :
    (∀ s, parse ts = .ok s ↔ Readable (body ts) ∧ Spells (body ts) s) ∧
      ∀ us s s', Spells us s → Spells us s' → s = s' := by
  refine ⟨fun s => ⟨spells_of_parseBody, fun h => parseBody_of_spells h.1 h.2⟩, ?_⟩
  exact fun us s s' h h' => spells_unique h h'

end Statement

end Abacus
