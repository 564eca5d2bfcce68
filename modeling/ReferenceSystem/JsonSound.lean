import ReferenceSystem.Json

/-!
# What is written is read back

A value may be followed by anything that does not continue a number. Reading
takes less fuel than there are bytes in the text, since every level of nesting
and every element has a byte of its own.
-/

namespace ReferenceSystem

namespace Json

theorem skipBlank_cons {c : UInt8} (h : isBlank c = false) (rest : List UInt8) : skipBlank (c :: rest) = c :: rest := by
  unfold skipBlank
  rw [List.dropWhile_cons_of_neg (by simp [h])]

/-! ## Numbers -/

/-- Nothing that would continue a number. -/
def Stops (rest : List UInt8) : Prop := ∀ c ∈ rest.head?, isDigit c = false ∧ c ≠ 46 ∧ c ≠ 101 ∧ c ≠ 69

theorem stops_cons {c : UInt8} (h : isDigit c = false ∧ c ≠ 46 ∧ c ≠ 101 ∧ c ≠ 69) (rest : List UInt8) :
    Stops (c :: rest) := by
  intro b hb
  cases hb
  exact h

theorem readDigits_decimal (n : Nat) {rest : List UInt8} (h : ∀ c ∈ rest.head?, isDigit c = false) :
    readDigits (decimal n ++ rest) = some (decimal n, rest) := by
  obtain ⟨htake, hdrop⟩ := span_stop (decimal_digits n) h
  unfold readDigits
  rw [htake, hdrop]
  cases hd : decimal n with
  | nil => exact absurd hd (decimal_ne_nil n)
  | cons c digits => rfl

theorem toDigits_head {n : Nat} (h : 0 < n) : ∃ c rest, Nat.toDigits 10 n = c :: rest ∧ c ≠ '0' := by
  induction n using Nat.strongRecOn with
  | ind n ih =>
    rcases Nat.lt_or_ge n 10 with hlt | hge
    · refine ⟨n.digitChar, [], Nat.toDigits_of_lt_base hlt, ?_⟩
      have : ∀ m : Nat, m < 10 → 0 < m → m.digitChar ≠ '0' := by decide
      exact this n hlt h
    · obtain ⟨c, rest, heq, hc⟩ := ih (n / 10) (Nat.div_lt_self h (by decide)) (Nat.div_pos hge (by decide))
      refine ⟨c, rest ++ [(n % 10).digitChar], ?_, hc⟩
      rw [Nat.toDigits_of_base_le (by decide) hge, heq, List.cons_append]

theorem decimal_no_leading_zero (n : Nat) : ¬ ((decimal n).head? = some 48 ∧ (decimal n).length ≠ 1) := by
  rcases Nat.eq_zero_or_pos n with rfl | hpos
  · decide
  · rintro ⟨hhead, _⟩
    obtain ⟨c, rest, heq, hc⟩ := toDigits_head hpos
    have hdigit : c.isDigit = true :=
      Nat.isDigit_of_mem_toDigits (by decide) (by decide) (heq ▸ List.mem_cons_self ..)
    unfold decimal at hhead
    rw [heq, List.map_cons, List.head?_cons, Option.some.injEq, ← UInt8.toNat_inj, toNat_ofNat_digit hdigit] at hhead
    exact hc (Char.toNat_inj.mp hhead)

theorem readWhole_decimal (n : Nat) {rest : List UInt8} (h : ∀ c ∈ rest.head?, isDigit c = false) :
    readWhole (decimal n ++ rest) = some (decimal n, rest) := by
  unfold readWhole
  simp only [readDigits_decimal n h]
  rw [if_neg (decimal_no_leading_zero n)]

theorem decimal_cons (n : Nat) : ∃ c digits, decimal n = c :: digits ∧ isDigit c = true := by
  obtain ⟨c, digits, h⟩ := List.exists_cons_of_ne_nil (decimal_ne_nil n)
  exact ⟨c, digits, h, decimal_digits n c (h ▸ List.mem_cons_self ..)⟩

/-- Both readers of a sign take a minus and stop at a digit. -/
theorem readSign_signedDecimal {readSign : List UInt8 → Bool × List UInt8}
    (hminus : ∀ rest, readSign (45 :: rest) = (true, rest))
    (hdigit : ∀ c rest, isDigit c = true → readSign (c :: rest) = (false, c :: rest)) (n : Int) (rest : List UInt8) :
    readSign (signedDecimal n ++ rest) = (decide (n < 0), decimal n.natAbs ++ rest) := by
  unfold signedDecimal
  by_cases hn : n < 0
  · rw [if_pos hn, decide_eq_true hn]
    exact hminus _
  · obtain ⟨c, digits, hd, hc⟩ := decimal_cons n.natAbs
    rw [if_neg hn, decide_eq_false hn, List.nil_append, hd, List.cons_append, hdigit c _ hc]

theorem extractSign_signedDecimal (n : Int) (rest : List UInt8) :
    extractSign (signedDecimal n ++ rest) = (decide (n < 0), decimal n.natAbs ++ rest) :=
  readSign_signedDecimal (fun _ => rfl) (fun _ rest hc => extractSign_digit hc rest) n rest

theorem readMinus_digit {c : UInt8} (hc : isDigit c = true) (rest : List UInt8) :
    readMinus (c :: rest) = (false, c :: rest) := by
  unfold readMinus
  split
  · rename_i heq; cases heq; cases hc
  · rfl

theorem readMinus_signedDecimal (n : Int) (rest : List UInt8) :
    readMinus (signedDecimal n ++ rest) = (decide (n < 0), decimal n.natAbs ++ rest) :=
  readSign_signedDecimal (fun _ => rfl) (fun _ rest hc => readMinus_digit hc rest) n rest

theorem signed_natAbs (n : Int) : (if decide (n < 0) = true then -(n.natAbs : Int) else n.natAbs) = n := by
  by_cases hn : n < 0
  · rw [if_pos (decide_eq_true hn)]
    omega
  · rw [if_neg (by simpa using hn)]
    omega

section
variable {rest : List UInt8} (hstop : Stops rest)
include hstop

theorem Stops.digit : ∀ c ∈ rest.head?, isDigit c = false := fun c hc => (hstop c hc).1

theorem readFraction_none : readFraction rest = some ([], rest) := by
  unfold readFraction
  split
  · exact absurd rfl (hstop 46 rfl).2.1
  · rfl

theorem readExponent_none : readExponent rest = some (0, rest) := by
  cases rest with
  | nil => rfl
  | cons c rest =>
    obtain ⟨_, _, he, hE⟩ := hstop c rfl
    unfold readExponent
    simp [he, hE]

theorem readExponent_int (n : Int) : readExponent (101 :: (signedDecimal n ++ rest)) = some (n, rest) := by
  unfold readExponent
  simp only [true_or, if_true, extractSign_signedDecimal, readDigits_decimal _ hstop.digit, Option.map_some,
    digitsValue_decimal, signed_natAbs]

theorem readNumber_encode (mantissa exponent : Int) :
    readNumber (encode (.num mantissa exponent) ++ rest) = some (.num mantissa exponent, rest) := by
  -- the tail that follows the digits of the mantissa
  obtain ⟨tail, htail, hdigit, hfraction, hexponent⟩ : ∃ tail,
      encode (.num mantissa exponent) ++ rest = signedDecimal mantissa ++ tail ∧ (∀ c ∈ tail.head?, isDigit c = false) ∧
      readFraction tail = some ([], tail) ∧ readExponent tail = some (exponent, rest) := by
    unfold encode
    by_cases he : exponent = 0
    · subst he
      exact ⟨rest, by simp, hstop.digit, readFraction_none hstop, readExponent_none hstop⟩
    · refine ⟨101 :: (signedDecimal exponent ++ rest), by simp [he], ?_, rfl, readExponent_int hstop exponent⟩
      intro c hc
      cases hc
      rfl
  unfold readNumber
  simp only [htail, readMinus_signedDecimal, readWhole_decimal _ hdigit, hfraction, hexponent, Option.bind_eq_bind,
    Option.bind_some, List.append_nil, digitsValue_decimal, signed_natAbs]
  simp

end

/-! ## Strings -/

theorem hexValue_hexDigit {n : Nat} (h : n < 16) : hexValue (hexDigit n) = some n := by
  have : ∀ n : Nat, n < 16 → hexValue (hexDigit n) = some n := by decide
  exact this n h

theorem readEscape_control {c : UInt8} (h : c < 32) (rest : List UInt8) :
    readEscape (117 :: 48 :: 48 :: hexDigit (c.toNat / 16) :: hexDigit (c.toNat % 16) :: rest) = some ([c], rest) := by
  have hc : c.toNat < 32 := h
  have hunit : readCodeUnit (48 :: 48 :: hexDigit (c.toNat / 16) :: hexDigit (c.toNat % 16) :: rest) =
      some (c.toNat, rest) := by
    have hzero : hexValue 48 = some 0 := rfl
    unfold readCodeUnit
    simp only [hzero, hexValue_hexDigit (show c.toNat / 16 < 16 by omega),
      hexValue_hexDigit (show c.toNat % 16 < 16 by omega), Option.bind_eq_bind, Option.bind_some]
    simp
    omega
  unfold readEscape readCodePoint
  simp only [if_true, hunit]
  rw [if_neg (by omega), if_neg (by omega), utf8, if_pos (by omega), UInt8.ofNat_toNat]

/-- Every escape is one step of the reader. -/
theorem readChars_escapeByte (n : Nat) (c : UInt8) (rest : List UInt8) :
    readChars (n + 1) (escapeByte c ++ rest) = (readChars n rest).map fun (chars, rest) => (c :: chars, rest) := by
  have hescaped : ∀ (text : List UInt8), readEscape (text ++ rest) = some ([c], rest) →
      readChars (n + 1) (92 :: (text ++ rest)) = (readChars n rest).map fun (chars, rest) => (c :: chars, rest) := by
    intro text htext
    rw [readChars, if_neg (by decide), if_neg (by decide), if_pos rfl, htext]
    simp only [Option.bind_eq_bind, Option.bind_some]
    cases readChars n rest with
    | none => rfl
    | some result => rfl
  unfold escapeByte
  split
  · rename_i h
    rcases h with rfl | rfl
    · exact hescaped [34] rfl
    · exact hescaped [92] rfl
  rename_i hplain
  split
  · rename_i h; subst h; exact hescaped [98] rfl
  split
  · rename_i h; subst h; exact hescaped [102] rfl
  split
  · rename_i h; subst h; exact hescaped [110] rfl
  split
  · rename_i h; subst h; exact hescaped [114] rfl
  split
  · rename_i h; subst h; exact hescaped [116] rfl
  split
  · rename_i h
    exact hescaped [117, 48, 48, _, _] (readEscape_control h rest)
  · rename_i h
    rw [not_or] at hplain
    rw [List.singleton_append, readChars, if_neg hplain.1, if_neg h, if_neg hplain.2]
    cases readChars n rest with
    | none => rfl
    | some result => rfl

theorem readChars_control {c : UInt8} (h : c < 32) (n : Nat) (rest : List UInt8) : readChars n (c :: rest) = none := by
  have hquote : c ≠ 34 := fun heq => absurd (heq ▸ h) (by decide)
  cases n with
  | zero => rfl
  | succ n => rw [readChars, if_neg hquote, if_pos h]

theorem length_escapeByte (c : UInt8) : 1 ≤ (escapeByte c).length := by
  unfold escapeByte
  grind

/-- A writer that escapes the good bytes and copies the others, which are control
characters: the reader follows it up to the first one copied. -/
theorem readChars_written (write : UInt8 → List UInt8) (good : UInt8 → Bool) (hgood : ∀ c, good c = true → write c = escapeByte c)
    (hbad : ∀ c, good c = false → c < 32 ∧ write c = [c]) (value rest : List UInt8) : ∀ n, value.length < n →
      readChars n (value.flatMap write ++ 34 :: rest) = if value.all good then some (value, rest) else none := by
  induction value with
  | nil =>
    intro n hn
    obtain ⟨m, rfl⟩ := Nat.exists_eq_succ_of_ne_zero (Nat.ne_of_gt hn)
    rfl
  | cons c value ih =>
    intro n hn
    rw [List.length_cons] at hn
    obtain ⟨m, rfl⟩ := Nat.exists_eq_succ_of_ne_zero (show n ≠ 0 by omega)
    rw [List.flatMap_cons, List.append_assoc, List.all_cons]
    cases hc : good c with
    | false =>
      obtain ⟨hcontrol, hcopied⟩ := hbad c hc
      rw [hcopied, List.singleton_append, readChars_control hcontrol]
      rfl
    | true =>
      rw [hgood c hc, readChars_escapeByte, ih m (by omega), Bool.true_and]
      cases value.all good with
      | false => rfl
      | true => rfl

theorem length_written {write : UInt8 → List UInt8} (hwrite : ∀ c, 1 ≤ (write c).length) (value : List UInt8) :
    value.length ≤ (value.flatMap write).length := by
  induction value with
  | nil => exact Nat.le_refl _
  | cons c value ih =>
    have := hwrite c
    rw [List.flatMap_cons, List.length_append, List.length_cons]
    omega

theorem readChars_escaped (value rest : List UInt8) (n : Nat) (hn : value.length < n) :
    readChars n (value.flatMap escapeByte ++ 34 :: rest) = some (value, rest) := by
  rw [readChars_written escapeByte (fun _ => true) (fun _ _ => rfl) (fun _ h => by cases h) value rest n hn]
  exact if_pos (List.all_eq_true.mpr fun _ _ => rfl)

theorem length_escaped (value : List UInt8) : value.length ≤ (value.flatMap escapeByte).length :=
  length_written length_escapeByte value

theorem readString_encodeString (value rest : List UInt8) :
    ∃ text, encodeString value ++ rest = 34 :: text ∧ readString text = some (value, rest) := by
  refine ⟨value.flatMap escapeByte ++ 34 :: rest, by simp [encodeString], ?_⟩
  unfold readString
  apply readChars_escaped
  have := length_escaped value
  rw [List.length_append]
  omega

/-! ## Values -/

theorem signedDecimal_cons (n : Int) : ∃ c text, signedDecimal n = c :: text ∧ (c = 45 ∨ isDigit c = true) := by
  unfold signedDecimal
  by_cases hn : n < 0
  · exact ⟨45, decimal n.natAbs, by simp [hn], Or.inl rfl⟩
  · obtain ⟨c, digits, hd, hc⟩ := decimal_cons n.natAbs
    exact ⟨c, digits, by simp [hn, hd], Or.inr hc⟩

theorem number_start {c : UInt8} (hc : c = 45 ∨ isDigit c = true) :
    isBlank c = false ∧ c ≠ 93 ∧ c ≠ 123 ∧ c ≠ 91 ∧ c ≠ 34 ∧ c ≠ 110 ∧ c ≠ 116 ∧ c ≠ 102 := by
  rcases hc with rfl | hc
  · decide
  · have hblank : isBlank c = false := by
      revert hc
      unfold isDigit isBlank
      grind
    refine ⟨hblank, ?_, ?_, ?_, ?_, ?_, ?_, ?_⟩ <;> (rintro rfl; cases hc)

theorem readValue_number {c : UInt8} (hc : c = 45 ∨ isDigit c = true) (n : Nat) (text : List UInt8) :
    readValue (n + 1) (c :: text) = readNumber (c :: text) := by
  obtain ⟨hblank, _, h₁, h₂, h₃, h₄, h₅, h₆⟩ := number_start hc
  rw [readValue, skipBlank_cons hblank]
  simp only [h₁, h₂, h₃, h₄, h₅, h₆, if_false]

/-- No value begins like the end of an array. -/
theorem encode_cons (value : Json) : ∃ c text, encode value = c :: text ∧ isBlank c = false ∧ c ≠ 93 := by
  cases value with
  | null => exact ⟨_, _, rfl, by decide⟩
  | bool value => cases value <;> exact ⟨_, _, rfl, by decide⟩
  | num mantissa exponent =>
    obtain ⟨c, text, heq, hc⟩ := signedDecimal_cons mantissa
    obtain ⟨hblank, hbracket, _⟩ := number_start hc
    exact ⟨c, _, by rw [encode, heq, List.cons_append], hblank, hbracket⟩
  | str value => exact ⟨_, _, rfl, by decide⟩
  | arr elements => exact ⟨_, _, rfl, by decide⟩
  | obj members => exact ⟨_, _, rfl, by decide⟩

theorem encodeElements_cons (element : Json) (elements : List Json) :
    ∃ c text, encodeElements (element :: elements) = c :: text ∧ isBlank c = false ∧ c ≠ 93 := by
  obtain ⟨c, text, heq, hc⟩ := encode_cons element
  cases elements with
  | nil => exact ⟨c, text, heq, hc⟩
  | cons next elements => exact ⟨c, _, by rw [encodeElements, heq, List.cons_append], hc⟩

theorem encodeMembers_cons (member : List UInt8 × Json) (members : List (List UInt8 × Json)) :
    ∃ text, encodeMembers (member :: members) = 34 :: text := by
  cases members with
  | nil => exact ⟨_, rfl⟩
  | cons next members => exact ⟨_, rfl⟩

theorem stops_comma (rest : List UInt8) : Stops (44 :: rest) := stops_cons (by decide) rest

theorem stops_bracket (rest : List UInt8) : Stops (93 :: rest) := stops_cons (by decide) rest

theorem stops_brace (rest : List UInt8) : Stops (125 :: rest) := stops_cons (by decide) rest

/-! ## Members -/

section
variable {key text rest : List UInt8} {n : Nat} {value : Json}

theorem readValue_string : readValue (n + 1) (34 :: text) =
    (readString text).map fun (value, rest) => (.str value, rest) := by
  rw [readValue, skipBlank_cons rfl]
  rfl

theorem readValue_object : readValue (n + 1) (123 :: 34 :: text) =
    (readMembers n (34 :: text)).map fun (members, rest) => (.obj members, rest) := by
  rw [readValue, skipBlank_cons rfl]
  simp only [if_true, skipBlank_cons (show isBlank 34 = false from rfl)]
  split
  · rename_i heq
    exact absurd (List.cons.inj heq).1 (by decide)
  · rfl

theorem readMembers_rejected (h : readValue n text = none) :
    readMembers (n + 1) (encodeString key ++ 58 :: text) = none := by
  obtain ⟨chars, hchars, hkey⟩ := readString_encodeString key (58 :: text)
  rw [hchars, readMembers, skipBlank_cons rfl]
  simp only [hkey, Option.bind_eq_bind, Option.bind_some, skipBlank_cons (show isBlank 58 = false from rfl), h]
  rfl

theorem readMembers_last (h : readValue n text = some (value, 125 :: rest)) :
    readMembers (n + 1) (encodeString key ++ 58 :: text) = some ([(key, value)], rest) := by
  obtain ⟨chars, hchars, hkey⟩ := readString_encodeString key (58 :: text)
  rw [hchars, readMembers, skipBlank_cons rfl]
  simp only [hkey, Option.bind_eq_bind, Option.bind_some, skipBlank_cons (show isBlank 58 = false from rfl), h,
    skipBlank_cons (show isBlank 125 = false from rfl)]
  rfl

theorem readMembers_next (h : readValue n text = some (value, 44 :: rest)) :
    readMembers (n + 1) (encodeString key ++ 58 :: text) =
      (readMembers n rest).map fun (members, rest) => ((key, value) :: members, rest) := by
  obtain ⟨chars, hchars, hkey⟩ := readString_encodeString key (58 :: text)
  rw [hchars, readMembers, skipBlank_cons rfl]
  simp only [hkey, Option.bind_eq_bind, Option.bind_some, skipBlank_cons (show isBlank 58 = false from rfl), h,
    skipBlank_cons (show isBlank 44 = false from rfl)]
  cases readMembers n rest with
  | none => rfl
  | some result => rfl

end

/-! ## Reading what was written -/

mutual

theorem readValue_encode : ∀ (value : Json) (rest : List UInt8) (n : Nat), Stops rest → (encode value).length < n →
    readValue n (encode value ++ rest) = some (value, rest)
  | _, _, 0, _, hn => absurd hn (Nat.not_lt_zero _)
  | .null, rest, n + 1, _, _ => rfl
  | .bool true, rest, n + 1, _, _ => rfl
  | .bool false, rest, n + 1, _, _ => rfl
  | .num mantissa exponent, rest, n + 1, hstop, _ => by
    rw [← readNumber_encode hstop mantissa exponent]
    obtain ⟨c, text, heq, hc⟩ := signedDecimal_cons mantissa
    rw [encode, heq, List.cons_append, List.cons_append, readValue_number hc]
  | .str value, rest, n + 1, _, _ => by
    obtain ⟨text, htext, hread⟩ := readString_encodeString value rest
    rw [encode, htext, readValue_string, hread]
    rfl
  | .arr [], rest, n + 1, _, _ => rfl
  | .arr (element :: elements), rest, n + 1, _, hn => by
    rw [encode, List.length_cons, List.length_append, List.length_singleton] at hn
    have hread := readElements_encode (element :: elements) rest n (by simp) (by omega)
    obtain ⟨c, text, htext, hblank, hc⟩ := encodeElements_cons element elements
    rw [encode, List.cons_append, List.append_assoc, List.singleton_append, readValue, skipBlank_cons rfl]
    rw [htext, List.cons_append] at hread ⊢
    simp only [show ¬ (91 : UInt8) = 123 by decide, if_false, if_true, skipBlank_cons hblank]
    split
    · rename_i heq
      exact absurd (List.cons.inj heq).1 hc
    · rw [hread]
      rfl
  | .obj [], rest, n + 1, _, _ => rfl
  | .obj (member :: members), rest, n + 1, _, hn => by
    rw [encode, List.length_cons, List.length_append, List.length_singleton] at hn
    have hread := readMembers_encode (member :: members) rest n (by simp) (by omega)
    obtain ⟨text, htext⟩ := encodeMembers_cons member members
    rw [encode, List.cons_append, List.append_assoc, List.singleton_append]
    rw [htext, List.cons_append] at hread ⊢
    rw [readValue_object, hread]
    rfl

theorem readElements_encode : ∀ (elements : List Json) (rest : List UInt8) (n : Nat), elements ≠ [] →
    (encodeElements elements).length + 1 < n →
    readElements n (encodeElements elements ++ 93 :: rest) = some (elements, rest)
  | _, _, 0, _, hn => absurd hn (Nat.not_lt_zero _)
  | [], _, _, h, _ => absurd rfl h
  | [element], rest, n + 1, _, hn => by
    have hvalue := readValue_encode element (93 :: rest) n (stops_bracket rest) (by simpa [encodeElements] using hn)
    rw [encodeElements, readElements, hvalue]
    rfl
  | element :: next :: elements, rest, n + 1, _, hn => by
    rw [encodeElements, List.length_append, List.length_cons] at hn
    have hvalue := readValue_encode element (44 :: (encodeElements (next :: elements) ++ 93 :: rest)) n (stops_comma _)
      (by omega)
    have helements := readElements_encode (next :: elements) rest n (by simp) (by omega)
    rw [encodeElements, List.append_assoc, List.cons_append, readElements, hvalue]
    simp only [Option.bind_eq_bind, Option.bind_some, skipBlank_cons (show isBlank 44 = false from rfl), helements]
    rfl

theorem readMembers_encode : ∀ (members : List (List UInt8 × Json)) (rest : List UInt8) (n : Nat), members ≠ [] →
    (encodeMembers members).length + 1 < n →
    readMembers n (encodeMembers members ++ 125 :: rest) = some (members, rest)
  | _, _, 0, _, hn => absurd hn (Nat.not_lt_zero _)
  | [], _, _, h, _ => absurd rfl h
  | [(key, value)], rest, n + 1, _, hn => by
    rw [encodeMembers, List.length_append, List.length_cons] at hn
    have hvalue := readValue_encode value (125 :: rest) n (stops_brace rest) (by omega)
    rw [encodeMembers, List.append_assoc, List.cons_append, readMembers_last hvalue]
  | (key, value) :: next :: members, rest, n + 1, _, hn => by
    rw [encodeMembers, List.length_append, List.length_cons, List.length_append, List.length_cons] at hn
    have hvalue := readValue_encode value (44 :: (encodeMembers (next :: members) ++ 125 :: rest)) n (stops_comma _)
      (by omega)
    have hmembers := readMembers_encode (next :: members) rest n (by simp) (by omega)
    rw [encodeMembers]
    simp only [List.append_assoc, List.cons_append]
    rw [readMembers_next hvalue, hmembers]
    rfl

end

/-- Whatever follows, the text is read as the value or rejected. -/
def Reads (text : List UInt8) (result : Option Json) : Prop :=
  ∀ (rest : List UInt8) (n : Nat), Stops rest → text.length < n →
    readValue n (text ++ rest) = result.map fun value => (value, rest)

theorem reads_encode (value : Json) : Reads (encode value) (some value) := readValue_encode value

theorem Reads.decode_eq {text : List UInt8} {result : Option Json} (h : Reads text result) : decode text = result := by
  have hread := h [] (text.length + 1) (fun c hc => by cases hc) (Nat.lt_succ_self _)
  rw [List.append_nil] at hread
  unfold decode
  rw [hread]
  cases result with
  | none => rfl
  | some value => rfl

/-- **The writer is undone by the reader.** -/
theorem decode_encode (value : Json) : decode (encode value) = some value := (reads_encode value).decode_eq

/-! ## One line -/

/-- No control characters. -/
def Printable (text : List UInt8) : Prop := ∀ c ∈ text, 32 ≤ c

theorem printable_of_all {text : List UInt8} (h : text.all (fun c => decide (32 ≤ c)) = true) : Printable text :=
  fun c hc => of_decide_eq_true (List.all_eq_true.mp h c hc)

theorem Printable.append {text text' : List UInt8} (h : Printable text) (h' : Printable text') :
    Printable (text ++ text') := List.forall_mem_append.mpr ⟨h, h'⟩

theorem Printable.cons {c : UInt8} {text : List UInt8} (hc : 32 ≤ c) (h : Printable text) : Printable (c :: text) :=
  List.forall_mem_cons.mpr ⟨hc, h⟩

theorem printable_decimal (n : Nat) : Printable (decimal n) := by
  intro c hc
  have hdigit := decimal_digits n c hc
  unfold isDigit at hdigit
  simp only [Bool.and_eq_true, decide_eq_true_eq] at hdigit
  exact UInt8.le_trans (by decide) hdigit.1

theorem printable_signedDecimal (n : Int) : Printable (signedDecimal n) := by
  unfold signedDecimal
  refine Printable.append ?_ (printable_decimal _)
  split
  · exact Printable.cons (by decide) (List.forall_mem_nil _)
  · exact List.forall_mem_nil _

theorem printable_hexDigit {n : Nat} (h : n < 16) : 32 ≤ hexDigit n := by
  have : ∀ n : Nat, n < 16 → 32 ≤ hexDigit n := by decide
  exact this n h

theorem printable_escapeByte (c : UInt8) : Printable (escapeByte c) := by
  have hpair : ∀ b : UInt8, 32 ≤ b → Printable [92, b] := fun b hb =>
    Printable.cons (by decide) (Printable.cons hb (List.forall_mem_nil _))
  unfold escapeByte
  split
  · rename_i h
    rcases h with rfl | rfl
    · exact hpair 34 (by decide)
    · exact hpair 92 (by decide)
  split
  · exact hpair 98 (by decide)
  split
  · exact hpair 102 (by decide)
  split
  · exact hpair 110 (by decide)
  split
  · exact hpair 114 (by decide)
  split
  · exact hpair 116 (by decide)
  split
  · rename_i h
    have hc : c.toNat < 32 := h
    have hdigits : Printable [hexDigit (c.toNat / 16), hexDigit (c.toNat % 16)] :=
      Printable.cons (printable_hexDigit (by omega)) (Printable.cons (printable_hexDigit (by omega)) (List.forall_mem_nil _))
    have hunicode : Printable [92, 117, 48, 48] := printable_of_all rfl
    exact hunicode.append hdigits
  · rename_i h
    exact Printable.cons (UInt8.not_lt.mp h) (List.forall_mem_nil _)

theorem printable_encodeString (value : List UInt8) : Printable (encodeString value) := by
  refine Printable.cons (by decide) (Printable.append ?_ (Printable.cons (by decide) (List.forall_mem_nil _)))
  intro c hc
  obtain ⟨b, _, hb⟩ := List.mem_flatMap.mp hc
  exact printable_escapeByte b c hb

mutual

theorem printable_encode : ∀ value : Json, Printable (encode value)
  | .null => printable_of_all rfl
  | .bool true => printable_of_all rfl
  | .bool false => printable_of_all rfl
  | .num mantissa exponent => by
    rw [encode]
    refine (printable_signedDecimal mantissa).append ?_
    split
    · exact List.forall_mem_nil _
    · exact Printable.cons (by decide) (printable_signedDecimal exponent)
  | .str value => printable_encodeString value
  | .arr elements => by
    rw [encode]
    exact Printable.cons (by decide)
      ((printable_encodeElements elements).append (Printable.cons (by decide) (List.forall_mem_nil _)))
  | .obj members => by
    rw [encode]
    exact Printable.cons (by decide)
      ((printable_encodeMembers members).append (Printable.cons (by decide) (List.forall_mem_nil _)))

theorem printable_encodeElements : ∀ elements : List Json, Printable (encodeElements elements)
  | [] => List.forall_mem_nil _
  | [element] => printable_encode element
  | element :: next :: elements =>
    (printable_encode element).append (Printable.cons (by decide) (printable_encodeElements (next :: elements)))

theorem printable_encodeMembers : ∀ members : List (List UInt8 × Json), Printable (encodeMembers members)
  | [] => List.forall_mem_nil _
  | [(key, value)] => (printable_encodeString key).append (Printable.cons (by decide) (printable_encode value))
  | (key, value) :: next :: members =>
    (printable_encodeString key).append (Printable.cons (by decide)
      ((printable_encode value).append (Printable.cons (by decide) (printable_encodeMembers (next :: members)))))

end

/-! ## Texts without escapes -/

/-- Bytes that are written as they are. -/
def isPlain (c : UInt8) : Bool := 32 ≤ c && c != 34 && c != 92

theorem escapeByte_plain {c : UInt8} (h : isPlain c = true) : escapeByte c = [c] := by
  unfold isPlain at h
  simp only [Bool.and_eq_true, decide_eq_true_eq, bne_iff_ne, ne_eq] at h
  obtain ⟨⟨hprint, hquote⟩, hslash⟩ := h
  have hcontrol : ∀ b : UInt8, b < 32 → c ≠ b := fun b hb heq => UInt8.not_lt.mpr hprint (heq ▸ hb)
  unfold escapeByte
  rw [if_neg (not_or.mpr ⟨hquote, hslash⟩), if_neg (hcontrol 8 (by decide)), if_neg (hcontrol 12 (by decide)),
    if_neg (hcontrol 10 (by decide)), if_neg (hcontrol 13 (by decide)), if_neg (hcontrol 9 (by decide)),
    if_neg (UInt8.not_lt.mpr hprint)]

theorem escaped_plain {value : List UInt8} (h : ∀ c ∈ value, isPlain c = true) : value.flatMap escapeByte = value := by
  induction value with
  | nil => rfl
  | cons c value ih =>
    obtain ⟨hc, hvalue⟩ := List.forall_mem_cons.mp h
    rw [List.flatMap_cons, escapeByte_plain hc, ih hvalue, List.singleton_append]

/-! ## Texts by members -/

def member (m : List UInt8 × Json) : List UInt8 := encodeString m.1 ++ 58 :: encode m.2

theorem encode_members (m : List UInt8 × Json) : ∀ ms : List (List UInt8 × Json),
    encode (.obj (m :: ms)) = 123 :: (member m ++ (ms.flatMap fun m => 44 :: member m) ++ [125]) := by
  have hmembers : ∀ (ms : List (List UInt8 × Json)) (m : List UInt8 × Json),
      encodeMembers (m :: ms) = member m ++ ms.flatMap fun m => 44 :: member m := by
    intro ms
    induction ms with
    | nil =>
      intro m
      rw [encodeMembers, List.flatMap_nil, List.append_nil]
      rfl
    | cons next ms ih =>
      intro m
      rw [encodeMembers, ih next, List.flatMap_cons]
      simp [member]
  intro ms
  rw [encode, hmembers]

theorem encodeElements_intercalate : ∀ elements : List Json,
    encodeElements elements = [44].intercalate (elements.map encode)
  | [] => rfl
  | [element] => by simp [encodeElements]
  | element :: next :: elements => by
    rw [encodeElements, encodeElements_intercalate (next :: elements)]
    simp [List.intercalate_cons_cons]

/-! ## Objects written by other means -/

/-- A member with the text of its value, and what that is read as. -/
structure MemberText where
  key : List UInt8
  text : List UInt8
  result : Option Json

def MemberText.encode (m : MemberText) : List UInt8 := encodeString m.key ++ 58 :: m.text

def MemberText.of (m : List UInt8 × Json) : MemberText := ⟨m.1, Json.encode m.2, some m.2⟩

def MemberText.read (m : MemberText) : Option (List UInt8 × Json) := m.result.map fun value => (m.key, value)

theorem MemberText.mapM_of (ms : List (List UInt8 × Json)) : (ms.map MemberText.of).mapM MemberText.read = some ms := by
  induction ms with
  | nil => rfl
  | cons m ms ih =>
    rw [List.map_cons, List.mapM_cons, ih]
    rfl

theorem MemberText.flatMap_of (ms : List (List UInt8 × Json)) :
    (ms.map MemberText.of).flatMap (fun x => 44 :: x.encode) = ms.flatMap fun m => 44 :: member m := by
  rw [List.flatMap_map]
  rfl

theorem MemberText.reads_of (ms : List (List UInt8 × Json)) : ∀ x ∈ ms.map MemberText.of, Reads x.text x.result :=
  List.forall_mem_map.mpr fun m _ => reads_encode m.2

theorem readMembers_texts (rest : List UInt8) (ms : List MemberText) : ∀ (m : MemberText) (n : Nat),
    (∀ x ∈ m :: ms, Reads x.text x.result) → (m.encode ++ ms.flatMap fun x => 44 :: x.encode).length + 1 < n →
    readMembers n (m.encode ++ ((ms.flatMap fun x => 44 :: x.encode) ++ 125 :: rest)) =
      ((m :: ms).mapM MemberText.read).map fun members => (members, rest) := by
  induction ms with
  | nil =>
    intro m n hreads hn
    simp only [MemberText.encode, List.length_append, List.length_cons, List.flatMap_nil, List.length_nil] at hn
    obtain ⟨k, rfl⟩ := Nat.exists_eq_succ_of_ne_zero (show n ≠ 0 by omega)
    have hread := hreads m (List.mem_cons_self ..) (125 :: rest) k (stops_brace rest) (by omega)
    rw [MemberText.encode, List.append_assoc, List.cons_append, List.flatMap_nil, List.nil_append]
    cases hm : m.result with
    | none =>
      rw [hm] at hread
      rw [readMembers_rejected hread]
      simp [MemberText.read, hm]
    | some value =>
      rw [hm] at hread
      rw [readMembers_last hread]
      simp [MemberText.read, hm]
  | cons next ms ih =>
    intro m n hreads hn
    obtain ⟨hm, hreads⟩ := List.forall_mem_cons.mp hreads
    simp only [MemberText.encode, List.length_append, List.length_cons, List.flatMap_cons] at hn
    obtain ⟨k, rfl⟩ := Nat.exists_eq_succ_of_ne_zero (show n ≠ 0 by omega)
    have hread := hm (44 :: (next.encode ++ ((ms.flatMap fun x => 44 :: x.encode) ++ 125 :: rest))) k (stops_comma _)
      (by omega)
    have hnext := ih next k hreads (by
      simp only [MemberText.encode, List.length_append, List.length_cons]
      omega)
    rw [MemberText.encode, List.append_assoc, List.cons_append, List.flatMap_cons, List.cons_append, List.cons_append,
      List.append_assoc, List.mapM_cons]
    cases hresult : m.result with
    | none =>
      rw [hresult] at hread
      rw [readMembers_rejected hread]
      simp [MemberText.read, hresult]
    | some value =>
      rw [hresult] at hread
      have hmember : m.read = some (m.key, value) := by rw [MemberText.read, hresult]; rfl
      rw [readMembers_next hread, hnext, hmember]
      cases (next :: ms).mapM MemberText.read with
      | none => rfl
      | some members => rfl

/-- **An object is read exactly if all its members are.** -/
theorem reads_object (m : MemberText) (ms : List MemberText) (h : ∀ x ∈ m :: ms, Reads x.text x.result) :
    Reads (123 :: (m.encode ++ (ms.flatMap fun x => 44 :: x.encode) ++ [125]))
      (((m :: ms).mapM MemberText.read).map .obj) := by
  intro rest n _ hn
  rw [List.length_cons, List.length_append, List.length_singleton] at hn
  obtain ⟨k, rfl⟩ := Nat.exists_eq_succ_of_ne_zero (show n ≠ 0 by omega)
  have hread := readMembers_texts rest ms m k h (by omega)
  obtain ⟨text, htext⟩ : ∃ text, m.encode = 34 :: text := ⟨_, rfl⟩
  simp only [List.cons_append, List.append_assoc, List.nil_append]
  rw [htext, List.cons_append] at hread ⊢
  rw [readValue_object, hread]
  cases (m :: ms).mapM MemberText.read with
  | none => rfl
  | some members => rfl

end Json

end ReferenceSystem
