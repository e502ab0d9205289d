import Abacus.Console.Typing
import Abacus.Proofs.Lossless
import Abacus.Proofs.Markup

/-!
# A coloured line is the line

The line that is being typed is shown in colour, by tokens that need not fit it: the list may come
from another line, and its positions may be out of order, lie inside a character or behind the end.
Whatever the list, nothing of the line is changed, dropped or shown twice.

## Spans

What is shown is a list of spans of the line, one after the other, of which some are set off
(`Span`).  Each token of the list either fits what is left of the line and adds a gap and a span of
its own, or it does not and ends the colouring (`highlightFrom_cons`).  That the spans make up the
line is an induction over the tokens, with what has been coloured so far as a part of the line that
is left behind.

## Places

The line can also be coloured by cutting it, again and again, at the places where the tokens stand
(`highlightAt?`).  All cuts but the last are only tried.  The last one takes what is behind the
spans that have been coloured so far, and it always finds it, because the last of these spans has
been cut out of the line.

## Tokens that fit

The tokens of a line fit it.  Each owns the text up to the next one, blanks included, and the blanks
in front of the first token belong to none (`Tiled`).
-/

namespace Abacus

open Text (isBlank byteSize)

/-! ## Pieces of a text -/

namespace Text

/-- The piece of a text between two places, if they are between characters and in order. -/
def slice? (start stop : Nat) (cs : List Char) : Option (List Char) :=
  if start ≤ stop then
    (splitAtByte? start cs).bind fun front =>
      (splitAtByte? (stop - start) front.2).map Prod.fst
  else none

theorem slice?_eq_some_iff {start stop : Nat} {cs piece : List Char} :
    slice? start stop cs = some piece ↔
      ∃ before after, cs = before ++ (piece ++ after) ∧ byteSize before = start ∧
        start + byteSize piece = stop := by
  unfold slice?
  constructor
  · intro h
    split at h
    next hle =>
      obtain ⟨⟨before, rest⟩, hbefore, hpiece⟩ := Option.bind_eq_some_iff.mp h
      obtain ⟨⟨span, after⟩, hcut, hspan⟩ := Option.map_eq_some_iff.mp hpiece
      obtain rfl : span = piece := hspan
      obtain ⟨rfl, hstart⟩ := splitAtByte?_eq_some_iff.mp hbefore
      obtain ⟨rfl, hstop⟩ := splitAtByte?_eq_some_iff.mp hcut
      exact ⟨before, after, rfl, hstart, by omega⟩
    next => cases h
  · rintro ⟨before, after, rfl, rfl, rfl⟩
    have hbefore : splitAtByte? (byteSize before) (before ++ (piece ++ after)) =
        some (before, piece ++ after) := splitAtByte?_eq_some_iff.mpr ⟨rfl, rfl⟩
    have hpiece : splitAtByte? (byteSize before + byteSize piece - byteSize before)
        (piece ++ after) = some (piece, after) :=
      splitAtByte?_eq_some_iff.mpr ⟨rfl, (Nat.add_sub_cancel_left ..).symm⟩
    rw [if_pos (Nat.le_add_right _ _), hbefore, Option.bind_some, hpiece]
    rfl

/-- A text is cut at a place in at most one way. -/
theorem append_inj_of_byteSize {front rest front' rest' : List Char}
    (h : front ++ rest = front' ++ rest') (hsize : byteSize front = byteSize front') :
    front = front' ∧ rest = rest' := by
  have hcut : splitAtByte? (byteSize front) (front ++ rest) = some (front, rest) :=
    splitAtByte?_eq_some_iff.mpr ⟨rfl, rfl⟩
  have hcut' : splitAtByte? (byteSize front) (front ++ rest) = some (front', rest') :=
    splitAtByte?_eq_some_iff.mpr ⟨h, hsize.symm⟩
  exact Prod.mk.inj (Option.some.inj (hcut.symm.trans hcut'))

end Text

namespace Console

open Text (slice? slice?_eq_some_iff)

/-! ## One token -/

/-- The place up to which a token owns the text, given the tokens behind it. -/
def spanStop (t : Token) : List Token → Nat
  | [] => t.stop
  | next :: _ => next.pos

/-- The token fits what is left of the line, which starts at this place: there is a gap in front of
the token, and then the span that it owns. -/
structure Fits (done : Nat) (left : List Char) (t : Token) (ts : List Token)
    (gap span rest : List Char) : Prop where
  parts : left = gap ++ (span ++ rest)
  kind : t.kind ≠ .ending
  pos : t.pos = done + byteSize gap
  stop : spanStop t ts = t.pos + byteSize span

/-- What is done with a token, with the place up to which it owns the text written out. -/
theorem highlightFrom_cons (p : Palette) (done : Nat) (left : List Char) (t : Token)
    (ts : List Token) :
    highlightFrom p done left (t :: ts) =
      if t.kind = .ending ∨ t.pos < done ∨ spanStop t ts < t.pos then String.ofList left
      else
        (Text.splitAtByte? (t.pos - done) left).elim (String.ofList left) fun front =>
          (Text.splitAtByte? (spanStop t ts - t.pos) front.2).elim (String.ofList left) fun back =>
            String.ofList front.1 ++ paintKind p t.kind (String.ofList back.1) ++
              highlightFrom p (spanStop t ts) back.2 ts := by
  cases ts
  all_goals
    rw [highlightFrom]
    refine if_congr Iff.rfl rfl ?_
    cases Text.splitAtByte? (t.pos - done) left with
    | none => rfl
    | some front =>
      dsimp only [Option.elim, spanStop, Token.stop]
      cases Text.splitAtByte? (_ - t.pos) front.2 <;> rfl

/-- A token that fits is set off. -/
theorem highlightFrom_of_fits {done : Nat} {left gap span rest : List Char} {t : Token}
    {ts : List Token} (h : Fits done left t ts gap span rest) (p : Palette) :
    highlightFrom p done left (t :: ts) =
      String.ofList gap ++ paintKind p t.kind (String.ofList span) ++
        highlightFrom p (spanStop t ts) rest ts := by
  obtain ⟨rfl, hkind, hpos, hstop⟩ := h
  have hgap : Text.splitAtByte? (t.pos - done) (gap ++ (span ++ rest)) = some (gap, span ++ rest) :=
    Text.splitAtByte?_eq_some_iff.mpr ⟨rfl, by omega⟩
  have hspan : Text.splitAtByte? (spanStop t ts - t.pos) (span ++ rest) = some (span, rest) :=
    Text.splitAtByte?_eq_some_iff.mpr ⟨rfl, by omega⟩
  have hgo : ¬ (t.kind = .ending ∨ t.pos < done ∨ spanStop t ts < t.pos) := by
    rintro (h | h | h)
    · exact hkind h
    · omega
    · omega
  rw [highlightFrom_cons, if_neg hgo, hgap, Option.elim_some, hspan, Option.elim_some]

/-- A token that does not fit ends the colouring. -/
theorem highlightFrom_of_not_fits {done : Nat} {left : List Char} {t : Token} {ts : List Token}
    (h : ∀ gap span rest, ¬ Fits done left t ts gap span rest) (p : Palette) :
    highlightFrom p done left (t :: ts) = String.ofList left := by
  rw [highlightFrom_cons]
  split
  next => rfl
  next hgo =>
    rw [not_or, not_or] at hgo
    obtain ⟨hkind, hdone, hstop⟩ := hgo
    cases hgap : Text.splitAtByte? (t.pos - done) left with
    | none => rfl
    | some front =>
      rw [Option.elim_some]
      cases hspan : Text.splitAtByte? (spanStop t ts - t.pos) front.2 with
      | none => rfl
      | some back =>
        obtain ⟨hleft, hsize⟩ := Text.splitAtByte?_eq_some_iff.mp hgap
        obtain ⟨hfront, hsize'⟩ := Text.splitAtByte?_eq_some_iff.mp hspan
        exact absurd ⟨hfront ▸ hleft, hkind, by omega, by omega⟩ (h front.1 back.1 back.2)

/-! ## Spans -/

/-- A piece of a line and the way in which it is set off, if it is. -/
structure Span where
  how : Option Paint
  text : String
  deriving DecidableEq, Repr

/-- What a palette makes of it. -/
def Span.written (p : Palette) (s : Span) : String :=
  s.how.elim s.text fun how => p.paint how s.text

/-- Plain text is one span. -/
theorem exists_spans_plain (s : String) :
    ∃ spans : List Span, String.join (spans.map Span.text) = s ∧
      ∀ p, s = String.join (spans.map (Span.written p)) :=
  ⟨[⟨none, s⟩], Markup.join_singleton s, fun _ => (Markup.join_singleton s).symm⟩

/-- **What is shown are spans that make up what is left of the line**, whatever the tokens. -/
theorem exists_spans (done : Nat) (left : List Char) (ts : List Token) :
    ∃ spans : List Span, String.join (spans.map Span.text) = String.ofList left ∧
      ∀ p, highlightFrom p done left ts = String.join (spans.map (Span.written p)) := by
  induction ts generalizing done left with
  | nil => exact exists_spans_plain (String.ofList left)
  | cons t ts ih =>
    by_cases hfits : ∃ gap span rest, Fits done left t ts gap span rest
    · obtain ⟨gap, span, rest, hfits⟩ := hfits
      obtain ⟨spans, htext, hshown⟩ := ih (spanStop t ts) rest
      refine ⟨⟨none, String.ofList gap⟩ ::
        ⟨some (groupPaint t.kind.group), String.ofList span⟩ :: spans, ?_, fun p => ?_⟩
      · rw [List.map_cons, List.map_cons, String.join_cons, String.join_cons, htext, hfits.parts,
          String.ofList_append, String.ofList_append]
      · rw [highlightFrom_of_fits hfits, hshown p, List.map_cons, List.map_cons, String.join_cons,
          String.join_cons, String.append_assoc]
        rfl
    · simp only [not_exists] at hfits
      simp only [highlightFrom_of_not_fits hfits]
      exact exists_spans_plain (String.ofList left)

theorem written_disabled (s : Span) : s.written ⟨false⟩ = s.text := by
  unfold Span.written
  cases s.how <;> rfl

/-! ## Places -/

/-- The line coloured from a place on, by cutting it at the places where tokens stand.  A cut that
fails ends the colouring, except for the last one, which has to succeed. -/
def highlightAt? (p : Palette) (line : List Char) (done : Nat) : List Token → Option String
  | [] => (slice? done (byteSize line) line).map String.ofList
  | t :: ts =>
      let plain := (slice? done (byteSize line) line).map String.ofList
      if t.kind = .ending then plain
      else
        (slice? done t.pos line).elim plain fun gap =>
          (slice? t.pos (spanStop t ts) line).elim plain fun span =>
            (highlightAt? p line (spanStop t ts) ts).map fun rest =>
              String.ofList gap ++ paintKind p t.kind (String.ofList span) ++ rest

/-- What is behind a place in the line can be cut out. -/
theorem slice?_left (front left : List Char) :
    slice? (byteSize front) (byteSize (front ++ left)) (front ++ left) = some left := by
  refine slice?_eq_some_iff.mpr ⟨front, [], by rw [List.append_nil], rfl, ?_⟩
  rw [Text.byteSize_append]

/-- A token fits what is left of a line exactly if the line can be cut in front of it and behind. -/
theorem exists_fits_iff {front left gap span : List Char} {t : Token} {ts : List Token}
    (hkind : t.kind ≠ .ending) :
    (∃ rest, Fits (byteSize front) left t ts gap span rest) ↔
      slice? (byteSize front) t.pos (front ++ left) = some gap ∧
        slice? t.pos (spanStop t ts) (front ++ left) = some span := by
  rw [slice?_eq_some_iff, slice?_eq_some_iff]
  constructor
  · rintro ⟨rest, rfl, -, hpos, hstop⟩
    refine ⟨⟨front, span ++ rest, rfl, rfl, hpos.symm⟩, front ++ gap, rest, ?_, ?_, hstop.symm⟩
    · rw [List.append_assoc]
    · rw [Text.byteSize_append, hpos]
  · rintro ⟨⟨before, after, hgap, hfront, hpos⟩, before', rest, hspan, hbefore', hstop⟩
    obtain ⟨rfl, hleft⟩ := Text.append_inj_of_byteSize hgap hfront.symm
    -- The place of the token is in front of the span and behind the gap.
    have hcut : (front ++ gap) ++ after = before' ++ (span ++ rest) := by
      rw [List.append_assoc, ← hleft, hspan]
    obtain ⟨-, hafter⟩ := Text.append_inj_of_byteSize hcut (by rw [Text.byteSize_append]; omega)
    exact ⟨rest, hleft.trans (congrArg _ hafter), hkind, by omega, by omega⟩

/-- **Cutting the line at the places of tokens never fails**, and it shows the same. -/
theorem highlightAt?_append (p : Palette) (front left : List Char) (ts : List Token) :
    highlightAt? p (front ++ left) (byteSize front) ts =
      some (highlightFrom p (byteSize front) left ts) := by
  induction ts generalizing front left with
  | nil => rw [highlightAt?, slice?_left]; rfl
  | cons t ts ih =>
    rw [highlightAt?, slice?_left, Option.map_some]
    by_cases hfits : ∃ gap span rest, Fits (byteSize front) left t ts gap span rest
    · obtain ⟨gap, span, rest, hfits⟩ := hfits
      obtain ⟨hgap, hspan⟩ := (exists_fits_iff hfits.kind).mp ⟨rest, hfits⟩
      have hplace : byteSize (front ++ gap ++ span) = spanStop t ts := by
        rw [Text.byteSize_append, Text.byteSize_append, hfits.stop, hfits.pos]
      have hline : front ++ left = front ++ gap ++ span ++ rest := by
        rw [hfits.parts, List.append_assoc, List.append_assoc]
      have hrest := ih (front ++ gap ++ span) rest
      rw [hplace, ← hline] at hrest
      rw [if_neg hfits.kind, hgap, Option.elim_some, hspan, Option.elim_some, hrest,
        highlightFrom_of_fits hfits, Option.map_some]
    · simp only [not_exists] at hfits
      rw [highlightFrom_of_not_fits hfits]
      split
      next => rfl
      next hkind =>
        cases hgap : slice? (byteSize front) t.pos (front ++ left) with
        | none => rfl
        | some gap =>
          rw [Option.elim_some]
          cases hspan : slice? t.pos (spanStop t ts) (front ++ left) with
          | none => rfl
          | some span =>
            obtain ⟨rest, hrest⟩ := (exists_fits_iff hkind).mpr ⟨hgap, hspan⟩
            exact absurd hrest (hfits gap span rest)

/-! ## Tokens that fit -/

/-- The text, which starts at this place, is cut into spans, each of which begins where its token
stands and ends where the next one does.  The last token is the end of the text. -/
inductive Tiled : Nat → List Char → List Token → List (List Char) → Prop where
  | ending {pos} : Tiled pos [] [⟨.ending, pos, ""⟩] []
  | token {pos span rest t ts spans} : t.pos = pos → t.kind ≠ .ending →
      Tiled (pos + byteSize span) rest ts spans → Tiled pos (span ++ rest) (t :: ts) (span :: spans)

namespace Tiled

variable {pos : Nat} {text : List Char} {ts : List Token} {spans : List (List Char)}

theorem exists_cons (h : Tiled pos text ts spans) : ∃ t us, ts = t :: us ∧ t.pos = pos := by
  cases h with
  | ending => exact ⟨_, _, rfl, rfl⟩
  | token hpos => exact ⟨_, _, rfl, hpos⟩

theorem length_eq (h : Tiled pos text ts spans) : spans.length + 1 = ts.length := by
  induction h with
  | ending => rfl
  | token _ _ _ ih => rw [List.length_cons, List.length_cons, ih]

/-- A token owns the text up to the next one. -/
theorem spanStop_eq (h : Tiled pos text ts spans) (t : Token) : spanStop t ts = pos := by
  obtain ⟨u, us, rfl, hpos⟩ := h.exists_cons
  exact hpos

/-- Every span is set off, and what is in front of them is not. -/
theorem highlightFrom_eq (done : Nat) (gap : List Char)
    (h : Tiled (done + byteSize gap) text ts spans) (p : Palette) :
    highlightFrom p done (gap ++ text) ts = String.ofList gap ++ String.join
      (List.zipWith (fun t span => paintKind p t.kind (String.ofList span)) ts spans) := by
  generalize hplace : done + byteSize gap = place at h
  induction h generalizing done gap with
  | ending =>
    rw [highlightFrom_of_not_fits fun _ _ _ hfits => hfits.kind rfl, List.append_nil,
      List.zipWith_nil_right, String.join_nil, String.append_empty]
  | @token pos span rest t ts spans hpos hkind hrest ih =>
    have hstop := hrest.spanStop_eq t
    have hfits : Fits done (gap ++ (span ++ rest)) t ts gap span rest :=
      ⟨rfl, hkind, by omega, by omega⟩
    have hshown := ih (spanStop t ts) [] hstop
    rw [List.nil_append, String.ofList_nil, String.empty_append] at hshown
    rw [highlightFrom_of_fits hfits, hshown, List.zipWith_cons_cons, String.join_cons,
      String.append_assoc]

/-- Every span is the piece of the line between its token and the next one. -/
theorem forall₂_slice? (front : List Char) (h : Tiled (byteSize front) text ts spans) :
    List.Forall₂ (fun x span => slice? x.1.pos x.2.pos (front ++ text) = some span)
      (ts.zip ts.tail) spans := by
  generalize hplace : byteSize front = place at h
  induction h generalizing front with
  | ending => exact .nil
  | @token pos span rest t ts spans hpos hkind hrest ih =>
    obtain ⟨u, us, rfl, hnext⟩ := hrest.exists_cons
    have hspans := ih (front ++ span) (by rw [Text.byteSize_append, hplace])
    rw [List.append_assoc] at hspans
    refine .cons (slice?_eq_some_iff.mpr ⟨front, rest, rfl, ?_, ?_⟩) hspans
    · rw [hplace, hpos]
    · rw [hpos, hnext]

end Tiled

end Console

namespace Token

open Console (Tiled)

/-- A token has no blanks. -/
theorem Spelled.isBlank_eq_false {kind : Kind} {cs : List Char} (h : Spelled kind cs) :
    ∀ c ∈ cs, isBlank c = false := by
  intro c hc
  rw [Bool.eq_false_iff]
  intro hblank
  have hnumber := isNumberChar_of_isBlank hblank
  cases h with
  | number _ hchars => exact absurd ((hchars c hc).symm.trans hnumber) (by decide)
  | word hstart hchars =>
    have hword : isWordChar c = true :=
      (List.mem_cons.mp hc).elim (fun heq => heq ▸ isWordChar_of_startsWord hstart) (hchars c)
    exact absurd (hword.symm.trans (isWordChar_of_isBlank hblank)) (by decide)
  | symbol hmem =>
    have hall : symbols.all fun x => x.1.toList.all fun d => !isBlank d := by decide
    have hsymbol := List.all_eq_true.mp (List.all_eq_true.mp hall _ hmem) c hc
    rw [hblank] at hsymbol
    cases hsymbol

/-- The tokens that are laid in a text cut it into spans, with the blanks in front left over. -/
theorem Laid.exists_tiled {pos : Nat} {text : List Char} {ts : List Token} (h : Laid pos text ts) :
    ∃ left spans, text = text.takeWhile isBlank ++ left ∧
      Tiled (pos + byteSize (text.takeWhile isBlank)) left ts spans := by
  induction h with
  | @ending pos gap hgap =>
    rw [List.takeWhile_eq_self_iff.mpr hgap]
    exact ⟨[], [], (List.append_nil _).symm, .ending⟩
  | @token pos gap piece rest kind ts hgap hkind hpiece hrest ih =>
    obtain ⟨left, spans, hleft, htiled⟩ := ih
    obtain ⟨c, cs, rfl⟩ := List.exists_cons_of_ne_nil hpiece.ne_nil
    have hblanks : (gap ++ (c :: cs ++ rest)).takeWhile isBlank = gap := by
      refine (Text.run_append hgap ?_).1
      simpa using hpiece.isBlank_eq_false c List.mem_cons_self
    rw [hblanks]
    -- The blanks behind the token belong to it.
    refine ⟨(c :: cs ++ rest.takeWhile isBlank) ++ left,
      (c :: cs ++ rest.takeWhile isBlank) :: spans, ?_, .token rfl hkind ?_⟩
    · rw [List.append_assoc, ← hleft]
    · rwa [Text.byteSize_append, ← Nat.add_assoc]

end Token

namespace Console

open Text (slice?)

/-- **A coloured line is the line.**  Whatever the tokens and the palette:

* What is shown are spans that make up the line, some of them set off.  Without colours it is the
  line itself.
* If the line is cut at the places of the tokens, there is always something behind the last span
  that has been coloured, and the same is shown.

If the tokens are those of the line, the blanks in front of them stay plain, and every token sets
off the text from its place to that of the next one, in the colour of its group. -/
theorem highlighting_keeps_text (line : String) (ts : List Token) :
    (∃ spans : List Span, String.join (spans.map Span.text) = line ∧
        ∀ p, highlight p line ts = String.join (spans.map (Span.written p))) ∧
      highlight ⟨false⟩ line ts = line ∧
      (∀ p, highlightAt? p line.toList 0 ts = some (highlight p line ts)) ∧
      (Calculator.parse line = .ok ts → ∃ us spans,
        ts = us ++ [⟨.ending, Text.size line, ""⟩] ∧ (∀ t ∈ us, t.kind ≠ .ending) ∧
        List.Forall₂ (fun x span => slice? x.1.pos x.2.pos line.toList = some span)
          (ts.zip ts.tail) spans ∧
        ∀ p, highlight p line ts = String.ofList (line.toList.takeWhile isBlank) ++ String.join
          (List.zipWith (fun t span => p.paint (groupPaint t.kind.group) (String.ofList span))
            us spans)) := by
  obtain ⟨spans, htext, hshown⟩ := exists_spans 0 line.toList ts
  rw [String.ofList_toList] at htext
  refine ⟨⟨spans, htext, hshown⟩, ?_, fun p => ?_, fun hparse => ?_⟩
  · rw [highlight, hshown, ← htext]
    exact congrArg String.join (List.map_congr_left fun s _ => written_disabled s)
  · exact highlightAt?_append p [] line.toList ts
  · have hlaid : Token.Laid 0 line.toList ts :=
      Token.laid_of_tokensFrom (Calculator.tokenize_of_parse hparse)
    obtain ⟨us, rfl, hus⟩ := hlaid.exists_ending
    obtain ⟨left, spans, hleft, htiled⟩ := hlaid.exists_tiled
    refine ⟨us, spans, ?_, hus, ?_, fun p => ?_⟩
    · rw [Nat.zero_add]
      rfl
    · rw [Nat.zero_add] at htiled
      have hslices := htiled.forall₂_slice? _
      rwa [← hleft] at hslices
    · have hlength : us.length = spans.length := by
        have hcount := htiled.length_eq
        rw [List.length_append, List.length_singleton] at hcount
        omega
      have hpainted := htiled.highlightFrom_eq 0 _ p
      -- The end of the line has no span.
      rw [← hleft, ← List.append_nil spans, List.zipWith_append hlength, List.zipWith_nil_right,
        List.append_nil] at hpainted
      exact hpainted

section Examples

/-- The tokens of the line below, and those of another line. -/
private def spaced : List Token :=
  [⟨.variable, 2, "a"⟩, ⟨.shiftLeft, 4, "<<"⟩, ⟨.number, 6, "2"⟩, ⟨.ending, 7, ""⟩]

private def strange : List Token := [⟨.number, 2, "1"⟩, ⟨.add, 3, "+"⟩, ⟨.number, 1, "7"⟩]

/-- A blank of two bytes in front of a statement, and tokens that do not fit the line: the second
one stands inside a character. -/
theorem highlighting_keeps_text_spaced :
    (∃ us spans, spaced = us ++ [⟨.ending, Text.size "\u00a0a <<2", ""⟩] ∧
        (∀ t ∈ us, t.kind ≠ .ending) ∧
        List.Forall₂ (fun x span => slice? x.1.pos x.2.pos "\u00a0a <<2".toList = some span)
          (spaced.zip spaced.tail) spans ∧
        ∀ p, highlight p "\u00a0a <<2" spaced =
          String.ofList ("\u00a0a <<2".toList.takeWhile isBlank) ++ String.join
            (List.zipWith (fun t span => p.paint (groupPaint t.kind.group) (String.ofList span))
              us spans)) ∧
      highlight ⟨true⟩ "\u00a0a <<2" spaced =
        "\u00a0\x1b[32ma \x1b[0m\x1b[33m<<\x1b[0m\x1b[32m2\x1b[0m" ∧
      highlight ⟨true⟩ "x \u00e9+" strange = "x \u00e9+" ∧
      highlightAt? ⟨true⟩ "x \u00e9+".toList 0 strange = some "x \u00e9+" := by
  have hparse : Calculator.parse "\u00a0a <<2" = .ok spaced := by decide +kernel
  have hplain : highlight ⟨true⟩ "x \u00e9+" strange = "x \u00e9+" := by decide +kernel
  refine ⟨(highlighting_keeps_text _ spaced).2.2.2 hparse, by decide +kernel, hplain, ?_⟩
  rw [(highlighting_keeps_text _ strange).2.2.1, hplain]

end Examples

end Console

end Abacus
