import CodeAtlas.Json.Reader
import CodeAtlas.Json.Writer
import CodeAtlas.Proofs.Json.Numbers
import CodeAtlas.Proofs.ListRuns

/-!
# Reading what was written

A value is written without blanks, and its text tells where it ends as long as what follows does not go
on with a number. So each part of a text is read by itself, whatever stands behind it, and what comes
out of the whole is known for every value (`parse?_write`): the value with its floats read again, null
for what has no text of its own, and nothing at all if it is nested too deep or a float is too large.

A loose reader reads what a strict one reads and more (`parseLoosely?_of_parse?`), so that texts which
were written here come out of both alike.
-/

set_option autoImplicit false

namespace CodeAtlas.Json

open Text

/-! ## Strings -/

/-- The four hexadecimal digits of a control character. -/
theorem hexValue?_control : ∀ n < 0x20,
    let digits := List.replicate (4 - (Nat.toDigits 16 n).length) '0' ++ Nat.toDigits 16 n
    digits.length = 4 ∧ (digits.mapM hexValue?).map (ofDigits 16) = some n := by
  decide +kernel

theorem readUnit_append {cs : List Char} (hlength : cs.length = 4) {n : Nat}
    (hvalue : (cs.mapM hexValue?).map (ofDigits 16) = some n) (rest : List Char) :
    readUnit (cs ++ rest) = some (n, rest) := by
  match cs, hlength with
  | [a, b, c, d], _ =>
    obtain ⟨digits, hdigits, hn⟩ := Option.map_eq_some_iff.mp hvalue
    show (do
      let digits ← [a, b, c, d].mapM hexValue?
      return (ofDigits 16 digits, rest)) = some (n, rest)
    rw [hdigits, ← hn]
    rfl

/-- A control character is read from its four digits. -/
theorem readUnicode_control {c : Char} (h : c.toNat < 0x20) (rest : List Char) :
    readUnicode (List.replicate (4 - (Nat.toDigits 16 c.toNat).length) '0' ++
      Nat.toDigits 16 c.toNat ++ rest) = some (c, rest) := by
  obtain ⟨hlength, hvalue⟩ := hexValue?_control c.toNat h
  unfold readUnicode
  rw [readUnit_append hlength hvalue]
  simp only [Option.bind_eq_bind, Option.bind_some]
  rw [if_neg (by omega), if_neg (by omega), Char.ofNat_toNat]
  rfl

/-- A character is read back from what was written for it. -/
theorem readChars_escapeChar (fuel : Nat) (read : List Char) (c : Char) (rest : List Char) :
    readChars (fuel + 1) read (escapeChar c ++ rest) = readChars fuel (c :: read) rest := by
  have hescaped : ∀ {letter : Char} {rest' : List Char},
      readEscape (letter :: rest') = some (c, rest) →
      readChars (fuel + 1) read ('\\' :: letter :: rest') = readChars fuel (c :: read) rest := by
    intro letter rest' he
    simp [readChars, he]
  unfold escapeChar
  simp only [beq_iff_eq]
  split
  next hc => exact hescaped (by rw [hc]; rfl)
  split
  next hc => exact hescaped (by rw [hc]; rfl)
  split
  next hc => exact hescaped (by rw [hc]; rfl)
  split
  next hc => exact hescaped (by rw [hc]; rfl)
  split
  next hc => exact hescaped (by rw [hc]; rfl)
  split
  next hc => exact hescaped (by rw [hc]; rfl)
  split
  next hc => exact hescaped (by rw [hc]; rfl)
  split
  next hcontrol => exact hescaped (readUnicode_control hcontrol rest)
  next hquote hback _ _ _ _ _ hcontrol =>
    rw [List.cons_append, readChars]
    simp [hquote, hback, hcontrol]

theorem readChars_escaped {fuel : Nat} (read s : List Char) (rest : List Char)
    (hfuel : s.length < fuel) :
    readChars fuel read (s.flatMap escapeChar ++ '"' :: rest) =
      some (String.ofList (read.reverse ++ s), rest) := by
  induction s generalizing fuel read with
  | nil =>
    obtain ⟨fuel, rfl⟩ := Nat.exists_eq_succ_of_ne_zero (Nat.ne_zero_of_lt hfuel)
    simp [readChars]
  | cons c cs ih =>
    obtain ⟨fuel, rfl⟩ := Nat.exists_eq_succ_of_ne_zero (Nat.ne_zero_of_lt hfuel)
    rw [List.flatMap_cons, List.append_assoc, Nat.succ_eq_add_one, readChars_escapeChar,
      ih (c :: read) (by simpa using hfuel)]
    simp

theorem toList_quote (s : String) :
    (quote s).toList = '"' :: (s.toList.flatMap escapeChar ++ ['"']) := by
  simp [quote]

/-- Whatever the character, something is written for it. -/
theorem escapeChar_ne_nil (c : Char) : escapeChar c ≠ [] := by
  simp only [escapeChar, ne_eq, ite_eq_iff, List.cons_ne_nil, and_false, or_self, not_false_eq_true]

theorem length_le_quote (s : String) : s.toList.length < (quote s).toList.length := by
  have hone : ∀ c : Char, 1 ≤ (escapeChar c).length := by
    intro c
    exact List.length_pos_iff.mpr (escapeChar_ne_nil c)
  have hall : ∀ cs : List Char, cs.length ≤ (cs.flatMap escapeChar).length := by
    intro cs
    induction cs with
    | nil => simp
    | cons c cs ih =>
      have := hone c
      simp only [List.flatMap_cons, List.length_append, List.length_cons]
      omega
  have := hall s.toList
  simp only [toList_quote, List.length_cons, List.length_append]
  omega

/-- A string is read back from what stands behind its opening quote. -/
theorem readChars_quote {fuel : Nat} {s : String} (hfuel : (quote s).toList.length ≤ fuel) :
    ∃ cs, (quote s).toList = '"' :: cs ∧
      ∀ rest, readChars fuel [] (cs ++ rest) = some (s, rest) := by
  have hlength := length_le_quote s
  refine ⟨_, toList_quote s, fun rest => ?_⟩
  rw [List.append_assoc, List.singleton_append, readChars_escaped [] s.toList rest (by omega)]
  simp

/-! ## Numbers -/

/-- A number is read as what its literal is worth. -/
theorem readNumber_text {lit : NumberLiteral} (h : lit.WellFormed) {rest : List Char}
    (hrest : Stops rest) : readNumber (lit.text.toList ++ rest) = lit.value?.map (·, rest) := by
  unfold readNumber
  rw [NumberLiteral.readLiteral_text h hrest]
  simp only [Option.bind_eq_bind, Option.bind_some]
  cases lit.value? <;> rfl

/-- What begins as a literal is read as a number. -/
theorem readValue_number (inside : Reads Json → Reads Json) (fuel depth : Nat) {c : Char}
    (cs : List Char) (h : c ∈ NumberLiteral.heads) :
    readValue inside fuel depth (c :: cs) = readNumber (c :: cs) := by
  unfold readValue
  split
  case h_9 => rfl
  all_goals
    next he =>
      obtain ⟨rfl, -⟩ := List.cons.inj he
      exact absurd h (by decide)

/-! ## Lists -/

theorem skipSpace_of_head {cs : List Char} (h : ∀ c ∈ cs.head?, isSpace c = false) :
    skipSpace cs = cs := by
  cases cs with
  | nil => rfl
  | cons c cs => simp [skipSpace, h c rfl]

/-- Whether a text begins as a value or a member does: with no blank and no closing bracket. -/
def Opens (cs : List Char) : Prop := ∃ c ∈ cs.head?, isSpace c = false ∧ c ≠ ']' ∧ c ≠ '\x7d'

theorem Opens.append {cs : List Char} (h : Opens cs) (rest : List Char) : Opens (cs ++ rest) := by
  obtain ⟨c, hc, h⟩ := h
  exact ⟨c, by simp [Option.mem_def.mp hc], h⟩

theorem Opens.skipSpace {cs : List Char} (h : Opens cs) : skipSpace cs = cs := by
  obtain ⟨c, hc, hspace, -⟩ := h
  refine skipSpace_of_head fun c' hc' => ?_
  rw [← Option.mem_unique hc hc']
  exact hspace

theorem Opens.ne_nil {cs : List Char} (h : Opens cs) : cs ≠ [] := by
  rintro rfl
  obtain ⟨c, hc, -⟩ := h
  cases hc

/-- A text with commas is at least as long as each of its parts. -/
theorem length_le_intercalate {texts : List (List Char)} {text : List Char} (h : text ∈ texts) :
    text.length ≤ ([','].intercalate texts).length := by
  induction texts with
  | nil => cases h
  | cons first texts ih =>
    cases texts with
    | nil =>
      obtain rfl := List.mem_singleton.mp h
      exact Nat.le_of_eq (congrArg List.length (List.intercalate_singleton ..).symm)
    | cons second texts =>
      rw [List.intercalate_cons_cons]
      simp only [List.length_append]
      rcases List.mem_cons.mp h with rfl | h
      · omega
      · have := ih h
        omega

theorem count_le_intercalate (texts : List (List Char)) (h : ∀ text ∈ texts, text ≠ []) :
    texts.length ≤ ([','].intercalate texts).length := by
  induction texts with
  | nil => exact Nat.zero_le _
  | cons first texts ih =>
    have hfirst := List.length_pos_iff.mpr (h first List.mem_cons_self)
    cases texts with
    | nil =>
      rw [List.intercalate_singleton]
      exact hfirst
    | cons second texts =>
      have := ih fun text ht => h text (List.mem_cons_of_mem first ht)
      rw [List.intercalate_cons_cons]
      simp only [List.length_append, List.length_cons] at this ⊢
      omega

section Items

variable {α β : Type} {close : Char} {item : Reads α}

/-- What is read of the last item. -/
theorem readItems_last (hclose : close = ']' ∨ close = '\x7d') (fuel : Nat) {cs rest : List Char}
    {value : Option α} (hskip : skipSpace cs = cs) (hitem : item cs = value.map (·, close :: rest)) :
    readItems close item (fuel + 1) cs = value.map fun v => ([v], rest) := by
  rw [readItems, hskip, hitem]
  cases value with
  | none => rfl
  | some v =>
    simp only [Option.map_some, Option.bind_eq_bind, Option.bind_some]
    rcases hclose with rfl | rfl <;> rfl

/-- What is read of an item with others behind it. -/
theorem readItems_more (fuel : Nat) {cs rest : List Char} {value : Option α}
    (hskip : skipSpace cs = cs) (hitem : item cs = value.map (·, ',' :: rest)) :
    readItems close item (fuel + 1) cs = value.bind fun v =>
      (readItems close item fuel rest).map fun (vs, rest) => (v :: vs, rest) := by
  rw [readItems, hskip, hitem]
  cases value with
  | none => rfl
  | some v =>
    simp only [Option.map_some, Option.bind_eq_bind, Option.bind_some]
    show (readItems close item fuel rest).bind _ = _
    rw [Option.map_eq_bind]
    rfl

theorem intercalate_append (text : β → List Char) (x y : β) (ys : List β) (rest : List Char) :
    [','].intercalate ((x :: y :: ys).map text) ++ rest =
      text x ++ ',' :: ([','].intercalate ((y :: ys).map text) ++ rest) := by
  simp [List.intercalate_cons_cons]

/-- Items with commas between them are read one after the other, or not at all if one of them is not. -/
theorem readItems_intercalate (hclose : close = ']' ∨ close = '\x7d') {text : β → List Char}
    {value : β → Option α} {fuel : Nat} {xs : List β} (hne : xs ≠ []) (hfuel : xs.length ≤ fuel)
    (hopens : ∀ x ∈ xs, Opens (text x))
    (hitem : ∀ x ∈ xs, ∀ rest, Stops rest → item (text x ++ rest) = (value x).map (·, rest))
    (rest : List Char) :
    readItems close item fuel ([','].intercalate (xs.map text) ++ close :: rest) =
      (xs.mapM value).map (·, rest) := by
  induction xs generalizing fuel with
  | nil => contradiction
  | cons x xs ih =>
    obtain ⟨fuel, rfl⟩ := Nat.exists_eq_succ_of_ne_zero (Nat.ne_zero_of_lt hfuel)
    have hskip := fun rest => ((hopens x List.mem_cons_self).append rest).skipSpace
    have hread := hitem x List.mem_cons_self
    cases xs with
    | nil =>
      have hstops : Stops (close :: rest) := by
        rcases hclose with rfl | rfl <;> exact stops_cons (by decide)
      rw [List.map_singleton, List.intercalate_singleton, Nat.succ_eq_add_one,
        readItems_last hclose fuel (hskip _) (hread _ hstops)]
      cases hv : value x <;> simp [hv]
    | cons y ys =>
      have hothers := ih (by simp) (Nat.le_of_succ_le_succ hfuel)
        (fun z hz => hopens z (List.mem_cons_of_mem x hz))
        fun z hz => hitem z (List.mem_cons_of_mem x hz)
      rw [intercalate_append, Nat.succ_eq_add_one,
        readItems_more fuel (hskip _) (hread _ (stops_cons (by decide))), hothers,
        List.mapM_cons (a := x)]
      cases value x with
      | none => rfl
      | some v => cases (y :: ys).mapM value <;> rfl

/-- A list between its brackets is read item by item. -/
theorem readBracketed_intercalate (hclose : close = ']' ∨ close = '\x7d') {text : β → List Char}
    {value : β → Option α} {fuel : Nat} {xs : List β}
    (hfuel : ([','].intercalate (xs.map text)).length ≤ fuel) (hopens : ∀ x ∈ xs, Opens (text x))
    (hitem : ∀ x ∈ xs, (text x).length ≤ fuel →
      ∀ rest, Stops rest → item (text x ++ rest) = (value x).map (·, rest))
    (rest : List Char) :
    readBracketed close item fuel ([','].intercalate (xs.map text) ++ close :: rest) =
      (xs.mapM value).map (·, rest) := by
  have hcount := count_le_intercalate (xs.map text)
    (by simpa using fun x hx => (hopens x hx).ne_nil)
  rw [List.length_map] at hcount
  have hread : ∀ x ∈ xs, ∀ rest, Stops rest → item (text x ++ rest) = (value x).map (·, rest) :=
    fun x hx => hitem x hx (Nat.le_trans (length_le_intercalate (List.mem_map_of_mem hx)) hfuel)
  cases xs with
  | nil => rcases hclose with rfl | rfl <;> rfl
  | cons x xs =>
    rw [← readItems_intercalate hclose (by simp) (Nat.le_trans hcount hfuel) hopens hread rest]
    obtain ⟨more, hmore⟩ : ∃ more,
        [','].intercalate ((x :: xs).map text) ++ close :: rest = text x ++ more := by
      cases xs with
      | nil => exact ⟨_, by rw [List.map_singleton, List.intercalate_singleton]⟩
      | cons y ys => exact ⟨_, intercalate_append text x y ys _⟩
    have hfirst := (hopens x List.mem_cons_self).append more
    obtain ⟨c, hc, -, hbracket, hbrace⟩ := hopens x List.mem_cons_self
    obtain ⟨cs, hcs⟩ := List.head?_eq_some_iff.mp hc
    have hother : (c == close) = false := by rcases hclose with rfl | rfl <;> simpa
    rw [hmore, readBracketed, hfirst.skipSpace]
    simp only [hcs, List.cons_append, hother, Bool.false_eq_true, if_false]

end Items

/-! ## Values -/

/-- What a value becomes when it is written and read again, by a reader that goes this deep. -/
def readBack? : (depth : Nat) → Json → Option Json
  | _, null => some null
  | _, bool b => some (bool b)
  | _, int n => (NumberLiteral.ofInt n).value?
  | _, float x => if x.isFinite then (NumberLiteral.ofFloat x).value? else some null
  | _, str s => some (str s)
  | _, unreadable => some null
  | 0, arr _ => none
  | 0, obj _ => none
  | depth + 1, arr items => (items.mapM (readBack? depth)).map arr
  | depth + 1, obj members =>
    (members.mapM fun member => (readBack? depth member.2).map (member.1, ·)).map obj

/-! ## The text of a value -/

theorem writeItems_eq_map (items : List Json) : writeItems items = items.map write := by
  induction items with
  | nil => rfl
  | cons item items ih => rw [writeItems, ih, List.map_cons]

theorem writeMembers_eq_map (members : List (String × Json)) :
    writeMembers members = members.map fun member => quote member.1 ++ ":" ++ member.2.write := by
  induction members with
  | nil => rfl
  | cons member members ih =>
    obtain ⟨name, value⟩ := member
    rw [writeMembers, ih, List.map_cons]

theorem toList_write_arr (items : List Json) : (write (arr items)).toList =
    '[' :: ([','].intercalate (items.map fun item => item.write.toList) ++ [']']) := by
  simp [write, writeItems_eq_map, Function.comp_def]

theorem toList_write_obj (members : List (String × Json)) : (write (obj members)).toList =
    '\x7b' :: ([','].intercalate (members.map fun member =>
      (quote member.1).toList ++ ':' :: member.2.write.toList) ++ ['\x7d']) := by
  simp [write, writeMembers_eq_map, Function.comp_def]

theorem opens_cons {c : Char} (cs : List Char) (h : isSpace c = false ∧ c ≠ ']' ∧ c ≠ '\x7d') :
    Opens (c :: cs) := ⟨c, rfl, h⟩

theorem NumberLiteral.opens_text {lit : NumberLiteral} (h : lit.WellFormed) :
    Opens lit.text.toList := by
  have hheads : heads.all (fun c => !isSpace c && c != ']' && c != '\x7d') = true := by decide
  obtain ⟨c, hc, cs, hcs⟩ := head_text h
  rw [hcs]
  exact opens_cons cs (by simpa [and_assoc] using List.all_eq_true.mp hheads c hc)

theorem opens_quote (s : String) : Opens (quote s).toList := by
  rw [toList_quote]
  exact opens_cons _ (by decide)

theorem opens_write (value : Json) : Opens value.write.toList := by
  cases value with
  | null => exact opens_cons _ (by decide)
  | bool b => cases b <;> exact opens_cons _ (by decide)
  | int n =>
    rw [write, ← NumberLiteral.text_ofInt]
    exact NumberLiteral.opens_text (NumberLiteral.wellFormed_ofInt n)
  | float x =>
    rw [write, floatText]
    split
    · exact NumberLiteral.opens_text (NumberLiteral.wellFormed_ofFloat x)
    · exact opens_cons _ (by decide)
  | str s => exact opens_quote s
  | arr items =>
    rw [toList_write_arr]
    exact opens_cons _ (by decide)
  | obj members =>
    rw [toList_write_obj]
    exact opens_cons _ (by decide)
  | unreadable => exact opens_cons _ (by decide)

/-! ## Reading what was written -/

/-- A number is read back as what its literal is worth. -/
theorem readValue_text (inside : Reads Json → Reads Json) (fuel depth : Nat) {lit : NumberLiteral}
    (h : lit.WellFormed) {rest : List Char} (hrest : Stops rest) :
    readValue inside fuel depth (lit.text.toList ++ rest) = lit.value?.map (·, rest) := by
  obtain ⟨c, hc, cs, hcs⟩ := NumberLiteral.head_text h
  rw [← readNumber_text h hrest, hcs]
  exact readValue_number inside fuel depth _ hc

/-- A member is read back with its name and what its value becomes. -/
theorem readMember_write {fuel : Nat} {read : Reads Json} (name : String) {value : Json}
    {result : Option Json} {rest : List Char} (hfuel : (quote name).toList.length ≤ fuel)
    (hread : read (value.write.toList ++ rest) = result.map (·, rest)) :
    readMember fuel read (((quote name).toList ++ ':' :: value.write.toList) ++ rest) =
      (result.map (name, ·)).map (·, rest) := by
  obtain ⟨cs, hquote, hname⟩ := readChars_quote hfuel
  have hcolon : skipSpace (':' :: (value.write.toList ++ rest)) =
      ':' :: (value.write.toList ++ rest) := rfl
  rw [hquote, List.append_assoc, List.cons_append, List.cons_append, readMember, hname]
  simp only [Option.bind_eq_bind, Option.bind_some, hcolon]
  rw [((opens_write value).append rest).skipSpace, hread]
  cases result <;> rfl

/-- Reading what was written gives what the value becomes, whatever follows. -/
theorem readValue_write {fuel : Nat} : ∀ (depth : Nat) (value : Json) {rest : List Char},
    Stops rest → value.write.toList.length ≤ fuel →
    readValue id fuel depth (value.write.toList ++ rest) = (value.readBack? depth).map (·, rest)
  | depth, null => by
    intro _ _
    simp [write, readValue, readBack?, stripPrefixChars?]
  | depth, unreadable => by
    intro _ _
    simp [write, readValue, readBack?, stripPrefixChars?]
  | depth, bool true => by
    intro _ _
    simp [write, readValue, readBack?, stripPrefixChars?]
  | depth, bool false => by
    intro _ _
    simp [write, readValue, readBack?, stripPrefixChars?]
  | depth, int n => by
    intro hrest _
    rw [write, ← NumberLiteral.text_ofInt,
      readValue_text _ _ _ (NumberLiteral.wellFormed_ofInt n) hrest, readBack?]
  | depth, float x => by
    intro hrest _
    rw [write, floatText, readBack?]
    split
    · exact readValue_text _ _ _ (NumberLiteral.wellFormed_ofFloat x) hrest
    · simp [readValue, stripPrefixChars?]
  | depth, str s => by
    intro _ hfuel
    obtain ⟨cs, hquote, hread⟩ := readChars_quote hfuel
    rw [write, hquote, List.cons_append, readValue, hread, readBack?]
    rfl
  | 0, arr items => by
    intro _ _
    rw [toList_write_arr]
    rfl
  | 0, obj members => by
    intro _ _
    rw [toList_write_obj]
    rfl
  | depth + 1, arr items => by
    intro _ hfuel
    rw [toList_write_arr] at hfuel ⊢
    simp only [List.length_cons, List.length_append] at hfuel
    have hlist : ([','].intercalate (items.map fun item => item.write.toList)).length ≤ fuel := by
      omega
    have hitems := readBracketed_intercalate (.inl rfl) hlist (fun item _ => opens_write item)
      (fun item _ hlength rest hrest => readValue_write depth item hrest hlength)
    rw [List.cons_append, List.append_assoc, List.singleton_append, readValue, id_eq, hitems,
      readBack?]
    cases items.mapM (readBack? depth) <;> rfl
  | depth + 1, obj members => by
    intro _ hfuel
    rw [toList_write_obj] at hfuel ⊢
    simp only [List.length_cons, List.length_append] at hfuel
    have hlist : ([','].intercalate (members.map fun member =>
        (quote member.1).toList ++ ':' :: member.2.write.toList)).length ≤ fuel := by omega
    have hmember : ∀ member ∈ members,
        ((quote member.1).toList ++ ':' :: member.2.write.toList).length ≤ fuel →
        ∀ rest, Stops rest → readMember fuel (readValue id fuel depth)
          ((quote member.1).toList ++ ':' :: member.2.write.toList ++ rest) =
            ((readBack? depth member.2).map (member.1, ·)).map (·, rest) := by
      intro member _ hlength rest hrest
      simp only [List.length_append, List.length_cons] at hlength
      exact readMember_write member.1 (by omega) (readValue_write depth member.2 hrest (by omega))
    have hmembers := readBracketed_intercalate (.inr rfl) hlist
      (fun member _ => (opens_quote member.1).append _) hmember
    rw [List.cons_append, List.append_assoc, List.singleton_append, readValue, id_eq, hmembers,
      readBack?]
    cases members.mapM fun member => (readBack? depth member.2).map (member.1, ·) <;> rfl

/-- A text that was written is read as what the value becomes. -/
theorem parse?_write (value : Json) : parse? value.write = value.readBack? maxDepth := by
  have hopens := opens_write value
  have hread := readValue_write maxDepth value stops_nil (Nat.le_succ value.write.toList.length)
  rw [List.append_nil] at hread
  unfold parse? parseWith?
  simp only [hopens.skipSpace, id, hread]
  cases value.readBack? maxDepth <;> rfl

/-! ## Strict and loose readers -/

/-- Whether a reader reads all that another one reads, and in the same way. -/
def Extends {α : Type} (loose strict : Reads α) : Prop :=
  ∀ cs result, strict cs = some result → loose cs = some result

theorem Extends.orUnreadable {loose strict : Reads Json} (h : Extends loose strict) :
    Extends (orUnreadable loose) strict := by
  intro cs result hr
  simp [Json.orUnreadable, h cs result hr]

theorem Extends.map {α β : Type} {loose strict : Reads α} (h : Extends loose strict)
    (f : α × List Char → β) {cs : List Char} {result : β} (hr : (strict cs).map f = some result) :
    (loose cs).map f = some result := by
  obtain ⟨read, hread, hr⟩ := Option.map_eq_some_iff.mp hr
  rw [h cs read hread, Option.map_some, hr]

namespace Extends

variable {α : Type} {loose strict : Reads α}

theorem readItems (h : Extends loose strict) (close : Char) (fuel : Nat) :
    Extends (readItems close loose fuel) (Json.readItems close strict fuel) := by
  induction fuel with
  | zero => exact fun cs result hr => by cases hr
  | succ fuel ih =>
    intro cs result hr
    rw [Json.readItems] at hr ⊢
    obtain ⟨⟨first, rest⟩, hfirst, hr⟩ := Option.bind_eq_some_iff.mp hr
    rw [h _ _ hfirst]
    simp only [Option.bind_eq_bind, Option.bind_some]
    dsimp only at hr
    generalize skipSpace rest = after at hr ⊢
    match after with
    | [] => cases hr
    | c :: after =>
      by_cases hcomma : c = ','
      · subst hcomma
        obtain ⟨⟨items, rest⟩, hitems, hr⟩ := Option.bind_eq_some_iff.mp hr
        show (Json.readItems close loose fuel after).bind _ = some result
        rw [ih _ _ hitems]
        exact hr
      · simpa [hcomma] using hr

theorem readBracketed (h : Extends loose strict) (close : Char) (fuel : Nat) :
    Extends (readBracketed close loose fuel) (Json.readBracketed close strict fuel) := by
  intro cs result hr
  unfold Json.readBracketed at hr ⊢
  generalize skipSpace cs = inside at hr ⊢
  match inside with
  | [] => cases hr
  | c :: inside =>
    dsimp only at hr ⊢
    split at hr
    next hclose => rw [if_pos hclose, hr]
    next hclose =>
      rw [if_neg hclose]
      exact h.readItems close fuel _ _ hr

theorem readMember {loose strict : Reads Json} (h : Extends loose strict) (fuel : Nat) :
    Extends (readMember fuel loose) (Json.readMember fuel strict) := by
  intro cs result hr
  unfold Json.readMember at hr ⊢
  split at hr
  next =>
    obtain ⟨⟨name, rest⟩, hname, hr⟩ := Option.bind_eq_some_iff.mp hr
    simp only [hname, Option.bind_eq_bind, Option.bind_some]
    dsimp only at hr
    split at hr
    next =>
      obtain ⟨⟨value, rest⟩, hvalue, hr⟩ := Option.bind_eq_some_iff.mp hr
      simp only [h _ _ hvalue, Option.bind_some]
      exact hr
    next => cases hr
  next => cases hr

end Extends

/-- What is read strictly is read loosely as the same. -/
theorem extends_readValue (fuel depth : Nat) :
    Extends (readValue orUnreadable fuel depth) (readValue id fuel depth) := by
  induction depth using Nat.strongRecOn with
  | ind depth ih =>
    intro cs result hr
    unfold readValue at hr ⊢
    split at hr
    case h_7 inside inner heq =>
      have hinner := (ih inner (by omega)).orUnreadable
      exact (hinner.readBracketed ']' fuel).map _ hr
    case h_8 inside inner heq =>
      have hinner := (ih inner (by omega)).orUnreadable
      exact ((hinner.readMember fuel).readBracketed '\x7d' fuel).map _ hr
    all_goals exact hr

/-- A text that is read strictly is read loosely as the same. -/
theorem parseLoosely?_of_parse? {text : String} {value : Json} (h : parse? text = some value) :
    parseLoosely? text = some value := by
  unfold parse? parseLoosely? parseWith? at *
  obtain ⟨⟨read, rest⟩, hread, hrest⟩ := Option.bind_eq_some_iff.mp h
  have hloose := (extends_readValue _ _).orUnreadable _ _ hread
  simp only [hloose, Option.bind_eq_bind, Option.bind_some]
  exact hrest

/-! ## Values that come back as they are -/

/-- Whether a value is made of null, booleans, strings and integers of 64 bits, in arrays and objects that
are nested at most so deep. -/
def Plain : (depth : Nat) → Json → Prop
  | _, null | _, bool _ | _, str _ => True
  | _, int n => -(UInt64.size / 2 : Nat) ≤ n ∧ n < UInt64.size
  | _, float _ | _, unreadable => False
  | 0, arr _ | 0, obj _ => False
  | depth + 1, arr items => ∀ item ∈ items, Plain depth item
  | depth + 1, obj members => ∀ member ∈ members, Plain depth member.2

theorem readBack?_of_plain : ∀ (depth : Nat) (value : Json), value.Plain depth →
    value.readBack? depth = some value
  | _, null, _ | _, bool _, _ | _, str _, _ => by rw [readBack?]
  | _, int n, h => by
    rw [Plain] at h
    rw [readBack?, NumberLiteral.value?_ofInt h.1 h.2]
  | _, float _, h | _, unreadable, h => by
    rw [Plain] at h
    cases h
  | 0, arr _, h | 0, obj _, h => by
    rw [Plain] at h
    cases h
  | depth + 1, arr items, h => by
    rw [Plain] at h
    rw [readBack?, mapM_eq_self fun item hi => readBack?_of_plain depth item (h item hi)]
    rfl
  | depth + 1, obj members, h => by
    rw [Plain] at h
    have hmember : ∀ member ∈ members,
        (readBack? depth member.2).map (member.1, ·) = some member := fun member hm => by
      rw [readBack?_of_plain depth member.2 (h member hm)]
      rfl
    rw [readBack?, mapM_eq_self hmember]
    rfl

/-- Such a value is read from its text as it is, strictly or loosely. -/
theorem parseLoosely?_write {value : Json} (h : value.Plain maxDepth) :
    parseLoosely? value.write = some value :=
  parseLoosely?_of_parse? (by rw [parse?_write, readBack?_of_plain maxDepth value h])

end CodeAtlas.Json
