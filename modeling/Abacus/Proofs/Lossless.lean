import Abacus.Proofs.PipedLines
import Abacus.Proofs.ParserFaults

/-!
# Nothing of a text is lost

The tokens of a text are pieces of it.  They stand where their positions say, one behind the other,
and what is between them is blank.  So the text can be put together again from its tokens and the
blanks, and whoever cuts it at the positions of the tokens gets their texts.

Where a text has no tokens, something stands in it that no token starts with, or that starts like a
number and is none, and the fault says where.  Up to there everything is in order.

## How tokens are written

`Spelled` is the list of the ways to write a token, without any way of reading them.  What is read
as a token is written in one of these ways (`spelled_of_lexeme`).  Where nothing can be read, the
text does not go on with anything that is written so (`refused_of_lexeme`).

## Where they stand

`Laid` puts tokens into a text one after another.  What is asked of positions follows from it by
induction, and the tokens that are read are laid (`laid_of_tokensFrom`).
-/

namespace Abacus

namespace Token

open Text (isBlank byteSize)

/-! ## Spelling -/

/-- The symbols. -/
def symbols : List (String × Kind) :=
  [("**", .pow), ("//", .floorDiv), ("<<", .shiftLeft), (">>", .shiftRight), ("*", .mul),
   ("/", .div), ("+", .add), ("-", .sub), ("%", .mod), ("&", .and), ("|", .or), ("^", .xor),
   ("~", .complement), ("=", .assign), ("(", .openParen), (")", .closeParen)]

/-- The text begins like a number. -/
inductive LikeNumber : List Char → Prop where
  | digit {d cs} : d.isDigit = true → LikeNumber (d :: cs)
  | point {d cs} : d.isDigit = true → LikeNumber ('.' :: d :: cs)

/-- The ways to write a token, with the kind it then has. -/
inductive Spelled : Kind → List Char → Prop where
  | number {cs} : LikeNumber cs → (∀ c ∈ cs, isNumberChar c = true) →
      (Literal.read? (String.ofList cs)).isSome → Spelled .number cs
  | word {c cs} : startsWord c = true → (∀ d ∈ cs, isWordChar d = true) →
      Spelled (wordKind (c :: cs)) (c :: cs)
  | symbol {s kind} : (s, kind) ∈ symbols → Spelled kind s.toList

theorem startsNumber_iff {c : Char} {cs : List Char} :
    startsNumber c cs = true ↔ LikeNumber (c :: cs) := by
  rw [startsNumber, Bool.or_eq_true, Bool.and_eq_true, beq_iff_eq]
  constructor
  · rintro (hdigit | ⟨rfl, hnext⟩)
    · exact .digit hdigit
    · cases cs with
      | nil => cases hnext
      | cons d cs => exact .point hnext
  · intro h
    cases h with
    | digit hdigit => exact .inl hdigit
    | point hdigit => exact .inr ⟨rfl, hdigit⟩

theorem LikeNumber.ne_nil {cs : List Char} (h : LikeNumber cs) : cs ≠ [] := by
  cases h <;> exact List.cons_ne_nil _ _

/-- A text begins like a number if a part at its front does. -/
theorem LikeNumber.append {cs : List Char} (h : LikeNumber cs) (ds : List Char) :
    LikeNumber (cs ++ ds) := by
  cases h with
  | digit hdigit => exact .digit hdigit
  | point hdigit => exact .point hdigit

theorem Spelled.ne_nil {kind : Kind} {cs : List Char} (h : Spelled kind cs) : cs ≠ [] := by
  cases h with
  | number hlike => exact hlike.ne_nil
  | word => exact List.cons_ne_nil _ _
  | symbol hmem =>
    have hall : symbols.all fun x => !x.1.toList.isEmpty := by decide
    simpa using List.all_eq_true.mp hall _ hmem

/-- What has the kind of a number is a literal, be it written as a number or as a word. -/
theorem Spelled.isSome_read? {cs : List Char} (h : Spelled .number cs) :
    (Literal.read? (String.ofList cs)).isSome := by
  generalize hkind : Kind.number = kind at h
  cases h with
  | number _ _ hread => exact hread
  | @word c cs =>
    have hbinary : isBinaryWord (c :: cs) = true := by
      by_contra hnot
      rw [wordKind, if_neg hnot] at hkind
      unfold Kind.ofKeyword? at hkind
      split at hkind <;> cases hkind
    unfold isBinaryWord at hbinary
    split at hbinary
    next => exact (Bool.and_eq_true_iff.mp hbinary).2
    next => cases hbinary
  | symbol hmem =>
    have hall : symbols.all fun x => x.2 ≠ .number := by decide
    exact absurd hkind.symm (by simpa using List.all_eq_true.mp hall _ hmem)

/-- The symbol that is read is the first one in the list that the text starts with. -/
theorem symbol?_eq (c : Char) (cs : List Char) :
    symbol? c cs = (symbols.find? fun x => x.1.toList.isPrefixOf (c :: cs)).map fun x =>
      (x.2, x.1.toList.length - 1) := by
  -- A symbol of two characters is passed over where the second one is missing.
  have hsecond : ∀ d : Char, (∀ ds, cs = d :: ds → False) → [d].isPrefixOf cs = false := by
    intro d hd
    cases cs with
    | nil => rfl
    | cons e cs =>
      simp only [List.isPrefixOf_cons_cons, List.isPrefixOf_nil_left, Bool.and_true,
        beq_eq_false_iff_ne]
      rintro rfl
      exact hd _ rfl
  unfold symbol?
  split
  case h_5 h | h_6 h => simp [symbols, hsecond _ h]
  case h_17 hless hgreater =>
    have hnone : symbols.find? (fun x => x.1.toList.isPrefixOf (c :: cs)) = none := by
      by_cases hc : c = '<' ∨ c = '>'
      · rcases hc with rfl | rfl
        · simp [symbols, hsecond '<' fun ds h => hless ds rfl h]
        · simp [symbols, hsecond '>' fun ds h => hgreater ds rfl h]
      · rw [List.find?_eq_none]
        simp_all [symbols, eq_comm (b := c)]
    rw [hnone]
    rfl
  all_goals simp [symbols]

/-! ## One token -/

theorem take_length_takeWhile (p : Char → Bool) (cs : List Char) :
    cs.take (cs.takeWhile p).length = cs.takeWhile p :=
  (List.prefix_iff_eq_take.mp (List.takeWhile_prefix p)).symm

/-- What is taken as a number begins like one. -/
theorem likeNumber_run {c : Char} {cs : List Char} (h : startsNumber c cs = true) :
    LikeNumber (c :: cs.takeWhile isNumberChar) := by
  cases startsNumber_iff.mp h with
  | digit hdigit => exact .digit hdigit
  | @point d ds hdigit =>
    have hd : isNumberChar d = true := by
      simp [isNumberChar, isWordChar, Char.isAlphanum, hdigit]
    rw [List.takeWhile_cons_of_pos hd]
    exact .point hdigit

theorem isNumberChar_of_mem_run {c : Char} {cs : List Char} (h : startsNumber c cs = true) :
    ∀ d ∈ c :: cs.takeWhile isNumberChar, isNumberChar d = true :=
  List.forall_mem_cons.mpr
    ⟨isNumberChar_of_startsNumber h, fun _ hd => List.mem_takeWhile_imp hd⟩

/-- What is read as a token is written like one. -/
theorem spelled_of_lexeme {pos : Nat} {c : Char} {cs : List Char} {kind : Kind} {more : Nat}
    (h : lexeme pos c cs = .ok (kind, more)) : Spelled kind (c :: cs.take more) := by
  simp only [lexeme] at h
  split at h
  next hnumber =>
    split at h
    next hread =>
      obtain ⟨rfl, rfl⟩ := Prod.mk.inj (Except.ok.inj h)
      rw [take_length_takeWhile]
      exact .number (likeNumber_run hnumber) (isNumberChar_of_mem_run hnumber) hread
    next => cases h
  next =>
    split at h
    next hword =>
      obtain ⟨rfl, rfl⟩ := Prod.mk.inj (Except.ok.inj h)
      rw [take_length_takeWhile]
      exact .word hword fun d hd => List.mem_takeWhile_imp hd
    next =>
      split at h
      next found hfound =>
        obtain rfl := Except.ok.inj h
        rw [symbol?_eq, Option.map_eq_some_iff] at hfound
        obtain ⟨⟨s, k⟩, hfind, heq⟩ := hfound
        obtain ⟨rfl, rfl⟩ := Prod.mk.inj heq
        have hprefix : s.toList <+: c :: cs := by
          simpa using List.find?_some hfind
        have hspelled : Spelled k s.toList := .symbol (List.mem_of_find?_eq_some hfind)
        obtain ⟨d, ds, hds⟩ := List.exists_cons_of_ne_nil hspelled.ne_nil
        have htake := List.prefix_iff_eq_take.mp hprefix
        rw [hds] at htake hspelled ⊢
        simp only [List.length_cons, List.take_succ_cons, Nat.add_sub_cancel] at htake ⊢
        exact htake ▸ hspelled
      next => cases h

/-- The fault of a text that does not go on with a token: the place of its first character, and what
is wrong there. -/
inductive Refused (pos : Nat) : List Char → SyntaxError → Prop where
  /-- Nothing at the front of the text is written like a token. -/
  | char {c cs} : (∀ kind piece, Spelled kind piece → ¬ piece <+: c :: cs) →
      Refused pos (c :: cs) (.unexpectedChar c pos)
  /-- The text begins like a number, and the longest run of characters of numbers is no literal. -/
  | number {run rest} : LikeNumber run → (∀ c ∈ run, isNumberChar c = true) →
      (∀ c ∈ rest.head?, isNumberChar c = false) → Literal.read? (String.ofList run) = none →
      Refused pos (run ++ rest) (.invalidNumber (String.ofList run) pos)

theorem Refused.ne_nil {pos : Nat} {cs : List Char} {e : SyntaxError} (h : Refused pos cs e) :
    cs ≠ [] := by
  cases h with
  | char => exact List.cons_ne_nil _ _
  | number hlike => exact (hlike.append _).ne_nil

theorem refused_of_lexeme {pos : Nat} {c : Char} {cs : List Char} {e : SyntaxError}
    (h : lexeme pos c cs = .error e) : Refused pos (c :: cs) e := by
  simp only [lexeme] at h
  split at h
  next hnumber =>
    split at h
    next => cases h
    next hread =>
      obtain rfl := Except.error.inj h
      have hsplit : c :: cs = (c :: cs.takeWhile isNumberChar) ++ cs.dropWhile isNumberChar := by
        rw [List.cons_append, List.takeWhile_append_dropWhile]
      rw [hsplit]
      refine .number (likeNumber_run hnumber) (isNumberChar_of_mem_run hnumber) (fun d hd => ?_)
        (by simpa using hread)
      simpa only [Option.mem_def.mp hd] using List.head?_dropWhile_not isNumberChar cs
  next hnumber =>
    split at h
    next => cases h
    next hword =>
      split at h
      next => cases h
      next hsymbol =>
        obtain rfl := Except.error.inj h
        refine .char fun kind piece hpiece hprefix => ?_
        cases hpiece with
        | number hlike =>
          obtain ⟨rest, hrest⟩ := hprefix
          exact hnumber (startsNumber_iff.mpr (hrest ▸ hlike.append rest))
        | @word d ds hstart =>
          obtain rfl := (List.cons_prefix_cons.mp hprefix).1
          exact hword hstart
        | @symbol s _ hmem =>
          rw [symbol?_eq, Option.map_eq_none_iff, List.find?_eq_none] at hsymbol
          exact hsymbol _ hmem (List.isPrefixOf_iff_prefix.mpr hprefix)

/-! ## Where tokens stand -/

/-- The tokens stand in the text, which itself begins at byte `pos`, one behind the other and with
nothing but blanks between them. -/
inductive Laid : Nat → List Char → List Token → Prop where
  | ending {pos gap} : (∀ c ∈ gap, isBlank c = true) →
      Laid pos gap [⟨.ending, pos + byteSize gap, ""⟩]
  | token {pos gap piece rest kind ts} : (∀ c ∈ gap, isBlank c = true) → kind ≠ .ending →
      Spelled kind piece → Laid (pos + byteSize gap + byteSize piece) rest ts →
      Laid pos (gap ++ (piece ++ rest)) (⟨kind, pos + byteSize gap, String.ofList piece⟩ :: ts)

theorem stop_ofList (kind : Kind) (pos : Nat) (piece : List Char) :
    (⟨kind, pos, String.ofList piece⟩ : Token).stop = pos + byteSize piece := by
  rw [Token.stop, Text.size, String.toList_ofList]

/-- A character of a text that is put together from two stands in one of them. -/
theorem mem_or_eq_append {xs ys before after : List Char} {c : Char}
    (h : xs ++ ys = before ++ c :: after) :
    (∃ mid, xs = before ++ c :: mid) ∨
      ∃ front, before = xs ++ front ∧ ys = front ++ c :: after := by
  rcases List.append_eq_append_iff.mp h with ⟨front, rfl, hys⟩ | ⟨mid, rfl, hmid⟩
  · exact .inr ⟨front, rfl, hys⟩
  · cases mid with
    | nil => exact .inr ⟨[], by simp, by simpa using hmid.symm⟩
    | cons d mid =>
      obtain ⟨rfl, -⟩ := List.cons.inj hmid
      exact .inl ⟨mid, rfl⟩

namespace Laid

variable {pos : Nat} {text : List Char} {ts : List Token}

/-- A blank in front joins the first gap. -/
theorem blank {c : Char} (hc : isBlank c = true) (h : Laid (pos + c.utf8Size) text ts) :
    Laid pos (c :: text) ts := by
  cases h with
  | ending hgap =>
    rw [Nat.add_assoc]
    exact .ending (List.forall_mem_cons.mpr ⟨hc, hgap⟩)
  | @token _ gap piece rest kind ts hgap hkind hpiece hrest =>
    have hplace : pos + c.utf8Size + byteSize gap = pos + byteSize (c :: gap) := Nat.add_assoc ..
    rw [hplace] at hrest ⊢
    exact .token (List.forall_mem_cons.mpr ⟨hc, hgap⟩) hkind hpiece hrest

theorem le_pos (h : Laid pos text ts) : ∀ t ∈ ts, pos ≤ t.pos := by
  induction h with
  | ending hgap => exact List.forall_mem_singleton.mpr (Nat.le_add_right _ _)
  | token hgap hkind hpiece hrest ih =>
    refine List.forall_mem_cons.mpr ⟨Nat.le_add_right _ _, fun t ht => ?_⟩
    have := ih t ht
    omega

/-- No token begins before the ones in front of it have ended. -/
theorem apart (h : Laid pos text ts) : ts.Pairwise fun t u => t.stop ≤ u.pos := by
  induction h with
  | ending hgap => exact List.pairwise_singleton _ _
  | token hgap hkind hpiece hrest ih =>
    refine List.pairwise_cons.mpr ⟨fun u hu => ?_, ih⟩
    rw [stop_ofList]
    exact hrest.le_pos u hu

theorem increasing (h : Laid pos text ts) : ts.Pairwise fun t u => t.pos < u.pos := by
  induction h with
  | ending hgap => exact List.pairwise_singleton _ _
  | token hgap hkind hpiece hrest ih =>
    refine List.pairwise_cons.mpr ⟨fun u hu => ?_, ih⟩
    have hle := hrest.le_pos u hu
    have hsize := Text.byteSize_pos_of_ne_nil hpiece.ne_nil
    show _ + _ < _
    omega

/-- A token is the piece of the text at its position. -/
theorem cut (h : Laid pos text ts) {t : Token} (ht : t ∈ ts) (hkind : t.kind ≠ .ending) :
    t.text ≠ "" ∧ ∃ before after, text = before ++ (t.text.toList ++ after) ∧
      t.pos = pos + byteSize before := by
  induction h with
  | ending hgap =>
    obtain rfl := List.mem_singleton.mp ht
    exact absurd rfl hkind
  | @token pos gap piece rest kind ts hgap _ hpiece hrest ih =>
    rcases List.mem_cons.mp ht with rfl | ht
    · rw [String.toList_ofList]
      refine ⟨fun hempty => hpiece.ne_nil ?_, gap, rest, rfl, rfl⟩
      have hempty : String.ofList piece = "" := hempty
      rw [← String.toList_ofList (l := piece), hempty, String.toList_empty]
    · obtain ⟨hne, before, after, rfl, hpos⟩ := ih ht
      refine ⟨hne, gap ++ (piece ++ before), after, by simp only [List.append_assoc], ?_⟩
      rw [hpos, Text.byteSize_append, Text.byteSize_append]
      omega

/-- What is in no token is blank. -/
theorem isBlank_or_mem (h : Laid pos text ts) {before after : List Char} {c : Char}
    (htext : text = before ++ c :: after) :
    isBlank c = true ∨
      ∃ t ∈ ts, t.pos ≤ pos + byteSize before ∧ pos + byteSize before < t.stop := by
  induction h generalizing before with
  | ending hgap =>
    subst htext
    exact .inl (hgap c (by simp))
  | @token pos gap piece rest kind ts hgap _ hpiece hrest ih =>
    rcases mem_or_eq_append htext with ⟨mid, rfl⟩ | ⟨front, rfl, hfront⟩
    · exact .inl (hgap c (by simp))
    · rcases mem_or_eq_append hfront with ⟨mid, rfl⟩ | ⟨front', rfl, hrest'⟩
      · refine .inr ⟨_, List.mem_cons_self, ?_, ?_⟩
        · rw [Text.byteSize_append]
          show pos + byteSize gap ≤ _
          omega
        · have hpos := Char.utf8Size_pos c
          rw [stop_ofList]
          simp only [Text.byteSize_append, Text.byteSize_cons]
          omega
      · rcases ih hrest' with hblank | ⟨t, ht, hle, hlt⟩
        · exact .inl hblank
        · refine .inr ⟨t, List.mem_cons_of_mem _ ht, ?_, ?_⟩
          · simp only [Text.byteSize_append]
            omega
          · simp only [Text.byteSize_append]
            omega

/-- There is one end, behind all of the text. -/
theorem exists_ending (h : Laid pos text ts) :
    ∃ us, ts = us ++ [⟨.ending, pos + byteSize text, ""⟩] ∧ ∀ u ∈ us, u.kind ≠ .ending := by
  induction h with
  | ending hgap => exact ⟨[], rfl, List.forall_mem_nil _⟩
  | @token pos gap piece rest kind ts hgap hkind hpiece hrest ih =>
    obtain ⟨us, rfl, hus⟩ := ih
    refine ⟨⟨kind, pos + byteSize gap, String.ofList piece⟩ :: us, ?_,
      List.forall_mem_cons.mpr ⟨hkind, hus⟩⟩
    rw [List.cons_append, Text.byteSize_append, Text.byteSize_append, Nat.add_assoc,
      Nat.add_assoc]

theorem isSome_read? (h : Laid pos text ts) :
    ∀ t ∈ ts, t.kind = .number → (Literal.read? t.text).isSome := by
  induction h with
  | ending hgap => exact List.forall_mem_singleton.mpr nofun
  | token hgap hkind hpiece hrest ih =>
    refine List.forall_mem_cons.mpr ⟨fun hnumber => ?_, ih⟩
    exact (hnumber ▸ hpiece : Spelled .number _).isSome_read?

end Laid

/-- The tokens of a text are laid in it. -/
theorem laid_of_tokensFrom {pos : Nat} {text : List Char} {ts : List Token}
    (h : tokensFrom pos text = .ok ts) : Laid pos text ts := by
  fun_induction tokensFrom pos text generalizing ts with
  | case1 pos =>
    obtain rfl := Except.ok.inj h
    exact .ending (List.forall_mem_nil _)
  | case2 pos c cs hc ih => exact .blank hc (ih h)
  | case3 => cases h
  | case4 => cases h
  | case5 pos c cs hc kind more hlexeme piece rest hrest =>
    rename_i ih
    obtain rfl := Except.ok.inj h
    have hsplit : c :: cs = [] ++ (piece ++ cs.drop more) := by
      rw [List.nil_append, List.cons_append, List.take_append_drop]
    rw [hsplit]
    exact .token (List.forall_mem_nil _) (lexeme_ne_ending hlexeme) (spelled_of_lexeme hlexeme)
      (ih hrest)

/-! ## Up to a fault -/

/-- A run that ends within the first part of a text is that of the first part. -/
theorem takeWhile_append_of_length_le {p : Char → Bool} {xs ys : List Char}
    (h : ((xs ++ ys).takeWhile p).length ≤ xs.length) :
    (xs ++ ys).takeWhile p = xs.takeWhile p := by
  rw [List.takeWhile_append] at h ⊢
  split
  next hall =>
    rw [if_pos hall, List.length_append] at h
    have hnone : ys.takeWhile p = [] := List.eq_nil_of_length_eq_zero (by omega)
    have hfull : xs.takeWhile p = xs := (List.takeWhile_prefix p).eq_of_length hall
    rw [hnone, List.append_nil, hfull]
  next => rfl

/-- A token does not depend on what is behind it, once that is known not to belong to it. -/
theorem lexeme_of_append {pos : Nat} {c : Char} {xs ys : List Char} {kind : Kind} {more : Nat}
    (h : lexeme pos c (xs ++ ys) = .ok (kind, more)) (hmore : more ≤ xs.length) :
    lexeme pos c xs = .ok (kind, more) := by
  simp only [lexeme] at h ⊢
  split at h
  next hnumber =>
    split at h
    next hread =>
      obtain ⟨rfl, rfl⟩ := Prod.mk.inj (Except.ok.inj h)
      have hrun := takeWhile_append_of_length_le hmore
      rw [hrun] at hread
      have hlike := likeNumber_run hnumber
      rw [hrun] at hlike
      have hnumber' : startsNumber c xs = true := by
        have happend := hlike.append (xs.dropWhile isNumberChar)
        rw [List.cons_append, List.takeWhile_append_dropWhile] at happend
        exact startsNumber_iff.mpr happend
      rw [if_pos hnumber', if_pos hread, hrun]
    next => cases h
  next hnumber =>
    have hnumber' : ¬ startsNumber c xs = true := fun hxs =>
      hnumber (startsNumber_iff.mpr ((startsNumber_iff.mp hxs).append ys))
    rw [if_neg hnumber']
    split at h
    next hword =>
      obtain ⟨rfl, rfl⟩ := Prod.mk.inj (Except.ok.inj h)
      rw [if_pos hword, takeWhile_append_of_length_le hmore]
    next hword =>
      rw [if_neg hword]
      split at h
      next found hfound =>
        obtain rfl := Except.ok.inj h
        have hsame : symbol? c xs = some (kind, more) := by
          cases xs with
          | cons d xs => rwa [List.cons_append, symbol?_cons c d _ xs] at hfound
          | nil =>
            obtain rfl := Nat.le_zero.mp hmore
            rw [List.nil_append] at hfound
            unfold symbol? at hfound
            split at hfound <;> cases hfound <;> rfl
        rw [hsame]
      next => cases h

/-- **A fault is at the first place that is out of order.** -/
theorem exists_refused {pos : Nat} {text : List Char} {e : SyntaxError}
    (h : tokensFrom pos text = .error e) :
    ∃ before rest, text = before ++ rest ∧ (∃ ts, tokensFrom pos before = .ok ts) ∧
      Refused (pos + byteSize before) rest e := by
  fun_induction tokensFrom pos text with
  | case1 => cases h
  | case2 pos c cs hc ih =>
    obtain ⟨before, rest, rfl, ⟨ts, hts⟩, hrefused⟩ := ih h
    refine ⟨c :: before, rest, rfl, ⟨ts, ?_⟩, ?_⟩
    · rw [tokensFrom, if_pos hc, hts]
    · rwa [Text.byteSize_cons, ← Nat.add_assoc]
  | case3 pos c cs hc e' hlexeme =>
    obtain rfl := Except.error.inj h
    refine ⟨[], c :: cs, rfl, ⟨_, by rw [tokensFrom]⟩, ?_⟩
    exact refused_of_lexeme hlexeme
  | case4 pos c cs hc kind more hlexeme piece e' hrest ih =>
    obtain rfl := Except.error.inj h
    obtain ⟨before, rest, hcs, ⟨ts, hts⟩, hrefused⟩ := ih hrest
    have hlength : (cs.take more).length = more :=
      List.length_take_of_le (le_length_of_lexeme hlexeme)
    have hsplit : cs = cs.take more ++ before ++ rest := by
      rw [List.append_assoc, ← hcs, List.take_append_drop]
    have hlexeme' : lexeme pos c (cs.take more ++ before) = .ok (kind, more) := by
      rw [hsplit] at hlexeme
      exact lexeme_of_append hlexeme (by rw [List.length_append, hlength]; omega)
    refine ⟨piece ++ before, rest, ?_, ⟨⟨kind, pos, String.ofList piece⟩ :: ts, ?_⟩, ?_⟩
    · rw [List.cons_append, List.cons_append, ← hsplit]
    · rw [List.cons_append, tokensFrom, if_neg hc, hlexeme']
      simp only [List.take_left' hlength, List.drop_left' hlength]
      rw [hts]
    · rwa [Text.byteSize_append, ← Nat.add_assoc]
  | case5 => cases h

end Token

/-! ## The tokens of a text -/

namespace Token

open Text (isBlank byteSize)

/-- What the positions, the texts and the kinds of tokens have to do with the text they are from. -/
structure Lossless (text : String) (ts : List Token) : Prop where
  /-- They come in the order of their positions. -/
  increasing : ts.Pairwise fun t u => t.pos < u.pos
  /-- Each has ended where the next one begins. -/
  apart : ts.Pairwise fun t u => t.stop ≤ u.pos
  /-- Each is a piece of the text and stands at its position. -/
  cut : ∀ t ∈ ts, t.kind ≠ .ending → t.text ≠ "" ∧
    ∃ before after, text = before ++ t.text ++ after ∧ t.pos = Text.size before
  /-- Every other character is blank. -/
  blank : ∀ before c after, text.toList = before ++ c :: after → isBlank c = true ∨
    ∃ t ∈ ts, t.pos ≤ byteSize before ∧ byteSize before < t.stop
  /-- The last one, and no other, is the end of the text. -/
  ending : ∃ us, ts = us ++ [⟨.ending, Text.size text, ""⟩] ∧ ∀ u ∈ us, u.kind ≠ .ending
  /-- The numbers are literals. -/
  number : ∀ t ∈ ts, t.kind = .number → (Literal.read? t.text).isSome

/-- No two tokens stand at one place. -/
theorem Lossless.pos_injective {text : String} {ts : List Token} (h : Lossless text ts)
    {i j : Fin ts.length} (hpos : (ts.get i).pos = (ts.get j).pos) : i = j := by
  have hlt := List.pairwise_iff_getElem.mp h.increasing
  rcases Nat.lt_trichotomy i j with hij | hij | hij
  · exact absurd (hlt i j i.isLt j.isLt hij) (Nat.not_lt.mpr (Nat.le_of_eq hpos.symm))
  · exact Fin.ext hij
  · exact absurd (hlt j i j.isLt i.isLt hij) (Nat.not_lt.mpr (Nat.le_of_eq hpos))

theorem lossless_of_tokenize {text : String} {ts : List Token} (h : tokenize text = .ok ts) :
    Lossless text ts := by
  have hlaid : Laid 0 text.toList ts := laid_of_tokensFrom h
  refine ⟨hlaid.increasing, hlaid.apart, fun t ht hkind => ?_, fun before c after htext => ?_, ?_,
    hlaid.isSome_read?⟩
  · obtain ⟨hne, before, after, htext, hpos⟩ := hlaid.cut ht hkind
    refine ⟨hne, String.ofList before, String.ofList after, ?_, ?_⟩
    · rw [← String.toList_inj]
      simp [htext]
    · rw [hpos, Nat.zero_add, Text.size, String.toList_ofList]
  · simpa only [Nat.zero_add] using hlaid.isBlank_or_mem htext
  · rw [Text.size, ← Nat.zero_add (byteSize _)]
    exact hlaid.exists_ending

/-- **Tokens lose nothing, and a fault is at the first place that is out of order.**

* If a text has tokens, they are pieces of it in the order of their positions, what is between them
  is blank, the end of the text comes last, and the parser finds no fault in a number.
* If it has none, the text up to the fault has tokens, and what comes then does not go on with one:
  either the character that is reported starts none, or the word that is reported starts like a
  number, goes on as far as there are characters of numbers, and is no literal. -/
theorem tokens_lossless (text : String) :
    (∀ ts, tokenize text = .ok ts →
      Lossless text ts ∧ ∀ word pos, Statement.parse ts ≠ .error (.invalidNumber word pos)) ∧
    ∀ e, tokenize text = .error e → ∃ before rest, text = before ++ rest ∧ rest ≠ "" ∧
      (∃ ts, tokenize before = .ok ts) ∧ Refused (Text.size before) rest.toList e := by
  refine ⟨fun ts h => ?_, fun e h => ?_⟩
  · have hlossless := lossless_of_tokenize h
    exact ⟨hlossless, fun word pos he =>
      (Statement.faults_parse ts _ he).ne_invalidNumber hlossless.number word pos rfl⟩
  · obtain ⟨before, rest, htext, hbefore, hrefused⟩ := exists_refused h
    rw [Nat.zero_add] at hrefused
    refine ⟨String.ofList before, String.ofList rest, ?_, ?_, ?_, ?_⟩
    · rw [← String.toList_inj]
      simp [htext]
    · intro hempty
      exact hrefused.ne_nil
        (by rw [← String.toList_ofList (l := rest), hempty, String.toList_empty])
    · rwa [tokenize, String.toList_ofList]
    · rwa [Text.size, String.toList_ofList, String.toList_ofList]

/-- A blank of two bytes, a word that is a number, and a point where a token may begin; behind the
name `a`, a point begins a word with too many points. -/
theorem tokens_lossless_points :
    Lossless "\u00a0b01 <<.5" [⟨.number, 2, "b01"⟩, ⟨.shiftLeft, 6, "<<"⟩, ⟨.number, 8, ".5"⟩,
      ⟨.ending, 10, ""⟩] ∧
    ∃ before rest, "a.5.5" = before ++ rest ∧ rest ≠ "" ∧ (∃ ts, tokenize before = .ok ts) ∧
      Refused (Text.size before) rest.toList (.invalidNumber ".5.5" 1) :=
  ⟨((tokens_lossless "\u00a0b01 <<.5").1 _ (by decide +kernel)).1,
    (tokens_lossless "a.5.5").2 _ (by decide +kernel)⟩

end Token

end Abacus
