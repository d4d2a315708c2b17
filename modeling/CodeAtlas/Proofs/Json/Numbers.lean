import CodeAtlas.Json.Literal
import Mathlib.Data.List.Basic
import Mathlib.Tactic.Common

/-!
# Number literals in texts

A literal that is well formed is read from its text as it is, whatever follows, as long as what follows
does not go on with the number (`readLiteral_text`). All literals that are ever written are well formed:
those of integers and those of decimals.

What the literal is worth is another matter. An integer of 64 bits is worth itself. The literal of a
float always has a point or an exponent, so it is worth a float if anything; which one, only `reread?`
says.
-/

set_option autoImplicit false

namespace CodeAtlas.Json

open Text

/-! ## Digits -/

/-- The decimal digits of a number. -/
def natDigits (n : Nat) : List Nat := (Nat.toDigits 10 n).map fun c => c.toNat - '0'.toNat

theorem natDigits_of_lt {n : Nat} (h : n < 10) : natDigits n = [n] := by
  simp [natDigits, Nat.toDigits_of_lt_base h, Nat.toNat_digitChar_of_lt_ten h]

theorem natDigits_of_le {n : Nat} (h : 10 ≤ n) :
    natDigits n = natDigits (n / 10) ++ [n % 10] := by
  have hlast : n % 10 < 10 := Nat.mod_lt n (by omega)
  simp [natDigits, Nat.toDigits_of_base_le (by omega) h, Nat.toNat_digitChar_of_lt_ten hlast]

/-- Induction over the digits of a number, from the first one on. -/
theorem digits_induction {motive : Nat → Prop} (one : ∀ n < 10, motive n)
    (more : ∀ n, 10 ≤ n → motive (n / 10) → motive n) (n : Nat) : motive n := by
  induction n using Nat.strongRecOn with
  | ind n ih =>
    by_cases hn : n < 10
    · exact one n hn
    · exact more n (by omega) (ih (n / 10) (by omega))

theorem natDigits_ne_nil (n : Nat) : natDigits n ≠ [] := by
  simp [natDigits, Nat.toDigits_ne_nil]

theorem lt_ten_of_mem_natDigits {n : Nat} : ∀ d ∈ natDigits n, d < 10 := by
  induction n using digits_induction with
  | one n hn => simpa [natDigits_of_lt hn] using hn
  | more n hn ih =>
    rw [natDigits_of_le hn]
    simp only [List.mem_append, List.mem_singleton]
    rintro d (hd | rfl)
    · exact ih d hd
    · omega

theorem ofDigits_natDigits (n : Nat) : ofDigits 10 (natDigits n) = n := by
  unfold ofDigits
  induction n using digits_induction with
  | one n hn => simp [natDigits_of_lt hn]
  | more n hn ih =>
    rw [natDigits_of_le hn, List.foldl_append, ih]
    simp only [List.foldl_cons, List.foldl_nil]
    omega

/-- Only zero is written with a zero in front. -/
theorem head?_natDigits {n : Nat} (h : n ≠ 0) : (natDigits n).head? ≠ some 0 := by
  induction n using digits_induction with
  | one n hn => simpa [natDigits_of_lt hn] using h
  | more n hn ih =>
    rw [natDigits_of_le hn, List.head?_append_of_ne_nil _ (natDigits_ne_nil _)]
    exact ih (by omega)

theorem toList_toString_nat (n : Nat) : (toString n).toList = (natDigits n).map Nat.digitChar := by
  rw [show (toString n).toList = Nat.toDigits 10 n from Nat.toList_repr]
  induction n using digits_induction with
  | one n hn => simp [natDigits_of_lt hn, Nat.toDigits_of_lt_base hn]
  | more n hn ih =>
    rw [natDigits_of_le hn, Nat.toDigits_of_base_le (by omega) hn, ih]
    simp

/-- Digits one after the other. -/
theorem toList_join_digits {ds : List Nat} (h : ∀ d ∈ ds, d < 10) :
    (String.join (ds.map toString)).toList = ds.map Nat.digitChar := by
  rw [String.toList_join, List.flatMap_map, List.map_eq_flatMap]
  refine List.flatMap_congr fun d hd => ?_
  rw [toList_toString_nat, natDigits_of_lt (h d hd)]
  rfl

theorem isDigit_digitChar : ∀ d < 10, isDigit (Nat.digitChar d) = true := by decide

theorem digitChar_ne_sign : ∀ d < 10, Nat.digitChar d ≠ '-' ∧ Nat.digitChar d ≠ '+' := by decide

theorem toNat_digitChar : ∀ d < 10, (Nat.digitChar d).toNat - '0'.toNat = d := by decide

/-- Whether a text begins with no digit. -/
def NoDigit (rest : List Char) : Prop := ∀ c ∈ rest.head?, isDigit c = false

theorem readDigits_append {ds : List Nat} (hne : ds ≠ []) (h : ∀ d ∈ ds, d < 10) {rest : List Char}
    (hrest : NoDigit rest) : readDigits (ds.map Nat.digitChar ++ rest) = some (ds, rest) := by
  have hdigits : ∀ c ∈ ds.map Nat.digitChar, isDigit c = true := by
    simp only [List.mem_map]
    rintro c ⟨d, hd, rfl⟩
    exact isDigit_digitChar d (h d hd)
  have hover : rest.takeWhile isDigit = [] ∧ rest.dropWhile isDigit = rest := by
    cases rest with
    | nil => exact ⟨rfl, rfl⟩
    | cons c cs => simp [hrest c rfl]
  have hback : (ds.map Nat.digitChar).map (fun c => c.toNat - '0'.toNat) = ds := by
    rw [List.map_map]
    exact (List.map_congr_left fun d hd => toNat_digitChar d (h d hd)).trans (List.map_id ds)
  have hread : digitsOf (ds.map Nat.digitChar ++ rest) = ds := by
    rw [digitsOf, List.takeWhile_append_of_pos hdigits, hover.1, List.append_nil, hback]
  unfold readDigits
  rw [hread, List.dropWhile_append_of_pos hdigits, hover.2]
  cases ds with
  | nil => contradiction
  | cons d ds => rfl

/-! ## Literals -/

/-- Whether a text does not go on with a number. -/
def Stops (rest : List Char) : Prop :=
  ∀ c ∈ rest.head?, isDigit c = false ∧ c ≠ '.' ∧ c ≠ 'e' ∧ c ≠ 'E'

theorem Stops.noDigit {rest : List Char} (h : Stops rest) : NoDigit rest := fun c hc => (h c hc).1

theorem stops_nil : Stops [] := by simp [Stops]

theorem stops_cons {c : Char} {rest : List Char}
    (h : isDigit c = false ∧ c ≠ '.' ∧ c ≠ 'e' ∧ c ≠ 'E') : Stops (c :: rest) := by
  simpa [Stops] using h

namespace NumberLiteral

/-- Whether a literal is one that is read: digits in both places, and no zero in front of others. -/
structure WellFormed (lit : NumberLiteral) : Prop where
  whole : ∀ d ∈ lit.whole, d < 10
  fraction : ∀ d ∈ lit.fraction, d < 10
  ne_nil : lit.whole ≠ []
  noZero : lit.whole.head? = some 0 → lit.whole = [0]

/-- The text of a fraction with its point. -/
def fractionChars (ds : List Nat) : List Char := if ds = [] then [] else '.' :: ds.map Nat.digitChar

/-- The text of an exponent with its letter. -/
def exponentChars (e : Option Int) : List Char :=
  e.elim [] fun e =>
    'e' :: ((if e < 0 then ['-'] else []) ++ (natDigits e.natAbs).map Nat.digitChar)

theorem toList_toString_int (n : Int) : (toString n).toList =
    (if n < 0 then ['-'] else []) ++ (natDigits n.natAbs).map Nat.digitChar := by
  cases n with
  | ofNat n => exact toList_toString_nat n
  | negSucc n =>
    have hneg : toString (Int.negSucc n) = "-" ++ toString (n + 1) := rfl
    rw [hneg, String.toList_append, toList_toString_nat]
    simp [Int.negSucc_lt_zero]

theorem toList_text {lit : NumberLiteral} (h : lit.WellFormed) : lit.text.toList =
    (if lit.negative then ['-'] else []) ++ lit.whole.map Nat.digitChar ++
      fractionChars lit.fraction ++ exponentChars lit.exponent := by
  unfold text fractionChars exponentChars
  simp only [String.toList_append, toList_join_digits h.whole, List.isEmpty_iff]
  congr 1
  · congr 1
    · congr 1
      split <;> rfl
    · split
      · rfl
      · rw [String.toList_append, toList_join_digits h.fraction]
        rfl
  · cases lit.exponent with
    | none => rfl
    | some e =>
      show (toString "e" ++ toString e).toList = _
      rw [String.toList_append, toList_toString_int]
      rfl

theorem readWhole_append {ds : List Nat} (hne : ds ≠ []) (h : ∀ d ∈ ds, d < 10)
    (hzero : ds.head? = some 0 → ds = [0]) {rest : List Char} (hrest : NoDigit rest) :
    readWhole (ds.map Nat.digitChar ++ rest) = some (ds, rest) := by
  unfold readWhole
  rw [readDigits_append hne h hrest]
  simp only [Option.bind_eq_bind, Option.bind_some]
  split
  next => cases hzero rfl
  next => rfl

theorem readFraction_append {ds : List Nat} (h : ∀ d ∈ ds, d < 10) {rest : List Char}
    (hrest : NoDigit rest) (hpoint : rest.head? ≠ some '.') :
    readFraction (fractionChars ds ++ rest) = some (ds, rest) := by
  unfold fractionChars
  split
  next hds =>
    subst hds
    unfold readFraction
    split
    next he => simp at he; simp [he] at hpoint
    next => rfl
  next hds => exact readDigits_append hds h hrest

theorem readExponent_append (e : Option Int) {rest : List Char} (hrest : Stops rest) :
    readExponent (exponentChars e ++ rest) = some (e, rest) := by
  cases e with
  | none =>
    cases rest with
    | nil => rfl
    | cons c cs =>
      obtain ⟨-, -, he, hE⟩ := hrest c rfl
      simp [exponentChars, readExponent, he, hE]
  | some e =>
    have hread := readDigits_append (natDigits_ne_nil e.natAbs) lt_ten_of_mem_natDigits hrest.noDigit
    have hvalue := ofDigits_natDigits e.natAbs
    unfold exponentChars readExponent
    simp only [Option.elim_some]
    generalize hn : e.natAbs = n at hread hvalue ⊢
    by_cases hneg : e < 0
    · have he : -(n : Int) = e := by omega
      simp [hneg, hread, hvalue, he]
    · have he : (n : Int) = e := by omega
      -- The first digit is no sign.
      obtain ⟨d, ds, hds⟩ := List.exists_cons_of_ne_nil (natDigits_ne_nil n)
      obtain ⟨hminus, hplus⟩ :=
        digitChar_ne_sign d (lt_ten_of_mem_natDigits d (hds ▸ List.mem_cons_self))
      rw [hds] at hread hvalue
      rw [List.map_cons, List.cons_append] at hread
      simp [hneg, hds, hminus, hplus, hread, hvalue, he]

theorem noDigit_exponentChars (e : Option Int) {rest : List Char} (hrest : Stops rest) :
    NoDigit (exponentChars e ++ rest) := by
  cases e with
  | none => exact hrest.noDigit
  | some e => simp [NoDigit, exponentChars, isDigit]

/-- What is read after the sign. -/
theorem readLiteral_sign (negative : Bool) {cs : List Char} (h : cs.head? ≠ some '-') :
    readLiteral ((if negative then ['-'] else []) ++ cs) = do
      let (whole, cs) ← readWhole cs
      let (fraction, cs) ← readFraction cs
      let (exponent, cs) ← readExponent cs
      return ({ negative, whole, fraction, exponent }, cs) := by
  cases negative with
  | true => rfl
  | false =>
    unfold readLiteral
    simp only [Bool.false_eq_true, if_false, List.nil_append]
    split
    next => exact absurd rfl h
    next => rfl

/-- A well-formed literal is read from its text. -/
theorem readLiteral_text {lit : NumberLiteral} (h : lit.WellFormed) {rest : List Char}
    (hrest : Stops rest) : readLiteral (lit.text.toList ++ rest) = some (lit, rest) := by
  have hexp := readExponent_append lit.exponent hrest
  have hexpAfter := noDigit_exponentChars lit.exponent hrest
  have hpoint : (exponentChars lit.exponent ++ rest).head? ≠ some '.' := by
    cases lit.exponent with
    | none => exact fun he => (hrest '.' he).2.1 rfl
    | some e => simp [exponentChars]
  have hfrac := readFraction_append h.fraction hexpAfter hpoint
  have hfracAfter : NoDigit (fractionChars lit.fraction ++ (exponentChars lit.exponent ++ rest)) := by
    unfold fractionChars
    split
    · exact hexpAfter
    · simp [NoDigit, isDigit]
  have hwhole := readWhole_append h.ne_nil h.whole h.noZero hfracAfter
  have hsign : (lit.whole.map Nat.digitChar ++
      (fractionChars lit.fraction ++ (exponentChars lit.exponent ++ rest))).head? ≠ some '-' := by
    obtain ⟨d, ds, hds⟩ := List.exists_cons_of_ne_nil h.ne_nil
    rw [hds]
    simp [digitChar_ne_sign d (h.whole d (hds ▸ List.mem_cons_self))]
  rw [toList_text h]
  simp only [List.append_assoc]
  rw [readLiteral_sign _ hsign]
  simp only [hwhole, hfrac, hexp, Option.bind_eq_bind, Option.bind_some]
  rfl

/-- The characters that the text of a literal begins with. -/
def heads : List Char := "-0123456789".toList

theorem head_text {lit : NumberLiteral} (h : lit.WellFormed) :
    ∃ c ∈ heads, ∃ cs, lit.text.toList = c :: cs := by
  have hdigit : ∀ d < 10, Nat.digitChar d ∈ heads := by decide
  rw [toList_text h]
  simp only [List.append_assoc]
  cases lit.negative with
  | true => exact ⟨'-', by decide, _, rfl⟩
  | false =>
    obtain ⟨d, ds, hds⟩ := List.exists_cons_of_ne_nil h.ne_nil
    rw [hds]
    exact ⟨_, hdigit d (h.whole d (hds ▸ List.mem_cons_self)), _, rfl⟩

/-! ## Integers -/

/-- The literal of an integer. -/
def ofInt (n : Int) : NumberLiteral where
  negative := n < 0
  whole := natDigits n.natAbs

theorem wellFormed_ofInt (n : Int) : (ofInt n).WellFormed where
  whole := lt_ten_of_mem_natDigits
  fraction := by simp [ofInt]
  ne_nil := natDigits_ne_nil _
  noZero hzero := by
    by_cases hn : n.natAbs = 0
    · rw [ofInt, hn]
      rfl
    · exact absurd hzero (head?_natDigits hn)

theorem text_ofInt (n : Int) : (ofInt n).text = toString n := by
  refine String.toList_injective ?_
  rw [toList_text (wellFormed_ofInt n), toList_toString_int]
  simp [ofInt, fractionChars, exponentChars]

/-- All digits are taken as long as they fit. -/
theorem takeDigits_eq {acc : Nat} {ds : List Nat}
    (h : ds.foldl (fun n d => n * 10 + d) acc < UInt64.size) :
    takeDigits acc ds = (ds.foldl (fun n d => n * 10 + d) acc, 0) := by
  have grows : ∀ (ds : List Nat) (acc : Nat), acc ≤ ds.foldl (fun n d => n * 10 + d) acc := by
    intro ds
    induction ds with
    | nil => exact fun acc => Nat.le_refl acc
    | cons d ds ih => exact fun acc => Nat.le_trans (by omega) (ih (acc * 10 + d))
  induction ds generalizing acc with
  | nil => rfl
  | cons d ds ih =>
    have hfits : acc * 10 + d < UInt64.size := Nat.lt_of_le_of_lt (grows ds _) h
    rw [takeDigits, if_pos hfits]
    exact ih h

/-- An integer of 64 bits, with a sign or without, is worth itself. -/
theorem value?_ofInt {n : Int} (low : -(UInt64.size / 2 : Nat) ≤ n) (high : n < UInt64.size) :
    (ofInt n).value? = some (.int n) := by
  have hfits : n.natAbs < UInt64.size := by
    simp only [UInt64.size] at low high ⊢
    omega
  have hscaled : (ofInt n).scaled = (n.natAbs, 0) := by
    have hdigits := ofDigits_natDigits n.natAbs
    unfold ofDigits at hdigits
    have hword : (natDigits n.natAbs).foldl (fun n d => n * 10 + d) 0 < UInt64.size := by
      rw [hdigits]
      exact hfits
    have htake := takeDigits_eq hword
    simp [scaled, ofInt, htake, hdigits, takeDigits]
  unfold value?
  rw [hscaled]
  generalize habs : n.natAbs = m at hfits ⊢
  by_cases hneg : n < 0
  · have hword : 0 < m ∧ m ≤ UInt64.size / 2 := by omega
    have hm : -(m : Int) = n := by omega
    simp [ofInt, hneg, hword, hm]
  · have hm : (m : Int) = n := by omega
    simp [ofInt, hneg, hm]

/-! ## Decimals -/

/-- A literal of a number other than zero, cut off its digits after some of them. -/
theorem wellFormed_of_take {n : Nat} (hn : n ≠ 0) {k : Nat} (hk : k ≠ 0) (zeros : Nat)
    {lit : NumberLiteral} (hwhole : lit.whole = (natDigits n).take k ++ List.replicate zeros 0)
    (hfraction : ∀ d ∈ lit.fraction, d < 10) : lit.WellFormed where
  whole d hd := by
    rw [hwhole, List.mem_append] at hd
    rcases hd with hd | hd
    · exact lt_ten_of_mem_natDigits d (List.mem_of_mem_take hd)
    · rw [List.eq_of_mem_replicate hd]
      decide
  fraction := hfraction
  ne_nil := by simp [hwhole, hk, natDigits_ne_nil]
  noZero hzero := by
    have hne : (natDigits n).take k ≠ [] := by simp [hk, natDigits_ne_nil]
    rw [hwhole, List.head?_append_of_ne_nil _ hne, List.head?_take, if_neg hk] at hzero
    exact absurd hzero (head?_natDigits hn)

/-- Decimals are written as they are read, and as no integer. -/
theorem ofDecimal_spec (d : Decimal) : (ofDecimal d).WellFormed ∧
    ((ofDecimal d).fraction ≠ [] ∨ (ofDecimal d).exponent ≠ none) := by
  have hdrop : ∀ (k : Nat), ∀ c ∈ (natDigits d.digits).drop k, c < 10 := fun k c hc =>
    lt_ten_of_mem_natDigits c (List.mem_of_mem_drop hc)
  unfold ofDecimal
  dsimp only
  rw [show ((Nat.toDigits 10 d.digits).map fun c => c.toNat - '0'.toNat) = natDigits d.digits from rfl]
  split
  next => exact ⟨⟨by simp, by simp, by simp, fun _ => rfl⟩, .inl (by simp)⟩
  next hzero =>
    have hn : d.digits ≠ 0 := by simpa using hzero
    have hlength : (natDigits d.digits).length ≠ 0 := by simp [natDigits_ne_nil]
    split
    next =>
      refine ⟨wellFormed_of_take hn hlength d.exponent.toNat ?_ (by simp), .inl (by simp)⟩
      rw [List.take_length]
    next hwhole =>
      split
      next hplaces =>
        simp only [Bool.and_eq_true, decide_eq_true_eq] at hwhole hplaces
        refine ⟨wellFormed_of_take hn (by omega) 0 (List.append_nil _).symm (hdrop _), .inl ?_⟩
        rw [ne_eq, List.drop_eq_nil_iff]
        omega
      next =>
        split
        next =>
          refine ⟨⟨by simp, fun c hc => ?_, by simp, fun _ => rfl⟩, .inl ?_⟩
          · rcases List.mem_append.mp hc with hc | hc
            · rw [List.eq_of_mem_replicate hc]
              decide
            · exact lt_ten_of_mem_natDigits c hc
          · simp [natDigits_ne_nil]
        next => exact ⟨wellFormed_of_take hn Nat.one_ne_zero 0 (List.append_nil _).symm (hdrop 1), .inr (by simp)⟩

theorem wellFormed_ofFloat (x : Float) : (ofFloat x).WellFormed := (ofDecimal_spec _).1

/-- The literal of a finite float is worth what the float becomes when it is read again. -/
theorem value?_ofFloat {x : Float} (h : x.isFinite = true) :
    (ofFloat x).value? = (reread? x).map .float := by
  have hnoInt : ((ofFloat x).fraction.isEmpty && (ofFloat x).exponent.isNone) = false := by
    rcases (ofDecimal_spec (.ofFloat .toEven x)).2 with hf | he
    · simp [ofFloat, hf]
    · simp [ofFloat, Option.isSome_iff_ne_none, he]
  have hvalue : (ofFloat x).value? = (do
      let f ← scaleFloat? (ofFloat x).scaled.1.toUInt64.toFloat (ofFloat x).scaled.2
      return .float (if (ofFloat x).negative then -f else f)) := by
    unfold value?
    simp only [hnoInt, Bool.false_and, Bool.false_eq_true, if_false]
  rw [reread?, if_pos h, hvalue]
  cases scaleFloat? (ofFloat x).scaled.1.toUInt64.toFloat (ofFloat x).scaled.2 <;> rfl

end NumberLiteral

end CodeAtlas.Json
