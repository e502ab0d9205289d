/-!
# Places in a text

Positions reported to the user count the bytes of the UTF-8 form, so that an editor
can jump to them.  The program itself works on characters.  This module moves
between the two: `byteSize` measures a run of characters, and `splitAtByte?` cuts a
text at a byte position, which succeeds exactly on character boundaries
(`splitAtByte?_eq_some_iff`).
-/

namespace Abacus.Text

/-- The number of bytes a run of characters takes in UTF-8. -/
def byteSize : List Char → Nat
  | [] => 0
  | c :: cs => c.utf8Size + byteSize cs

@[simp] theorem byteSize_nil : byteSize [] = 0 := rfl

@[simp] theorem byteSize_cons (c : Char) (cs : List Char) :
    byteSize (c :: cs) = c.utf8Size + byteSize cs := rfl

@[simp] theorem byteSize_append (cs ds : List Char) :
    byteSize (cs ++ ds) = byteSize cs + byteSize ds := by
  induction cs with
  | nil => simp
  | cons c cs ih =>
      simp only [List.cons_append, byteSize_cons, ih]
      omega

theorem byteSize_pos_of_ne_nil {cs : List Char} (h : cs ≠ []) : 0 < byteSize cs := by
  cases cs with
  | nil => exact absurd rfl h
  | cons c cs =>
      have := Char.utf8Size_pos c
      simp only [byteSize_cons]
      omega

/-- The bytes of a string. -/
def size (s : String) : Nat :=
  byteSize s.toList

/-- The two parts of a text around byte position `n`, if that is a character
boundary of the text. -/
def splitAtByte? (n : Nat) : List Char → Option (List Char × List Char)
  | [] => if n = 0 then some ([], []) else none
  | c :: cs =>
      if n = 0 then some ([], c :: cs)
      else if c.utf8Size ≤ n then
        (splitAtByte? (n - c.utf8Size) cs).map fun p => (c :: p.1, p.2)
      else none

theorem splitAtByte?_append (l r : List Char) :
    splitAtByte? (byteSize l) (l ++ r) = some (l, r) := by
  induction l with
  | nil => cases r <;> rfl
  | cons c l ih =>
    have hpos := Char.utf8Size_pos c
    rw [List.cons_append, byteSize_cons, splitAtByte?, if_neg (by omega), if_pos (by omega),
      Nat.add_sub_cancel_left, ih]
    rfl

theorem eq_append_of_splitAtByte? {n : Nat} {cs l r : List Char}
    (h : splitAtByte? n cs = some (l, r)) : cs = l ++ r ∧ byteSize l = n := by
  induction cs generalizing n l with
  | nil =>
    rw [splitAtByte?] at h
    split at h
    next hn =>
      obtain ⟨rfl, rfl⟩ := Prod.mk.inj (Option.some.inj h)
      exact ⟨rfl, hn.symm⟩
    next => cases h
  | cons c cs ih =>
    rw [splitAtByte?] at h
    split at h
    next hn =>
      obtain ⟨rfl, rfl⟩ := Prod.mk.inj (Option.some.inj h)
      exact ⟨rfl, hn.symm⟩
    next =>
      split at h
      next hc =>
        obtain ⟨⟨l', r'⟩, hcut, heq⟩ := Option.map_eq_some_iff.mp h
        obtain ⟨rfl, rfl⟩ := Prod.mk.inj heq
        obtain ⟨rfl, hsize⟩ := ih hcut
        refine ⟨rfl, ?_⟩
        simp only [byteSize_cons]
        omega
      next => cases h

/-- Cutting succeeds with the parts `l` and `r` exactly when they make up the text
and `l` measures `n` bytes. -/
theorem splitAtByte?_eq_some_iff {n : Nat} {cs l r : List Char} :
    splitAtByte? n cs = some (l, r) ↔ cs = l ++ r ∧ byteSize l = n := by
  refine ⟨eq_append_of_splitAtByte?, ?_⟩
  rintro ⟨rfl, rfl⟩
  exact splitAtByte?_append l r

end Abacus.Text
