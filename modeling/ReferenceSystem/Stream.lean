import Mathlib.Algebra.Group.Int.Defs
import Mathlib.Algebra.Group.Nat.Defs

/-!
# Formatted extraction from a stream of bytes

The `>>` operators of an input stream in the classic locale, with the default
flags. An extraction returns its value and what is left to read, or `none` when
it fails; a stream that has failed yields nothing any more, which is how
extractions compose. Numbers are written in decimal.
-/

namespace ReferenceSystem

abbrev Extraction (α : Type) := List UInt8 → Option (α × List UInt8)

/-- What holds of all 256 bytes. -/
theorem byte_forall {P : UInt8 → Prop} (h : ∀ n < 256, P (UInt8.ofNat n)) (c : UInt8) : P c := by
  have hc := h c.toNat c.toNat_lt
  rwa [UInt8.ofNat_toNat] at hc

def isSpace (c : UInt8) : Bool := c == 32 || (9 ≤ c && c ≤ 13)

def isDigit (c : UInt8) : Bool := 48 ≤ c && c ≤ 57

def skipSpace (input : List UInt8) : List UInt8 := input.dropWhile isSpace

/-- `>> std::string`: the bytes up to the next white space; at least one. -/
def extractWord : Extraction (List UInt8) := fun input =>
  let rest := skipSpace input
  match rest.takeWhile (!isSpace ·) with
  | [] => none
  | word => some (word, rest.dropWhile (!isSpace ·))

def extractSign : List UInt8 → Bool × List UInt8
  | 45 :: rest => (true, rest)
  | 43 :: rest => (false, rest)
  | rest => (false, rest)

def digitsValue (digits : List UInt8) : Nat := digits.foldl (fun n c => 10 * n + (c.toNat - 48)) 0

/-- Sign, magnitude and rest of a decimal number; it ends at the first other byte. -/
def extractNumber : Extraction (Bool × Nat) := fun input =>
  let (negative, rest) := extractSign (skipSpace input)
  match rest.takeWhile isDigit with
  | [] => none
  | digits => some ((negative, digitsValue digits), rest.dropWhile isDigit)

/-- `>> int64_t`: a value out of range fails. -/
def extractInt64 : Extraction Int := fun input =>
  match extractNumber input with
  | none => none
  | some ((negative, n), rest) =>
    if n ≤ (if negative then 2 ^ 63 else 2 ^ 63 - 1) then some (if negative then -(n : Int) else n, rest) else none

/-- `>> size_t`: a sign is accepted and taken modulo 2^64. -/
def extractSize : Extraction Nat := fun input =>
  match extractNumber input with
  | none => none
  | some ((negative, n), rest) =>
    if n < 2 ^ 64 then some (if negative then (2 ^ 64 - n) % 2 ^ 64 else n, rest) else none

/-- `std::to_string`. -/
def decimal (n : Nat) : List UInt8 := (Nat.toDigits 10 n).map fun c => UInt8.ofNat c.toNat

def signedDecimal (n : Int) : List UInt8 := (if n < 0 then [45] else []) ++ decimal n.natAbs

/-! ## Reading back -/

theorem span_stop {p : UInt8 → Bool} {word rest : List UInt8} (hword : ∀ c ∈ word, p c = true)
    (hrest : ∀ c ∈ rest.head?, p c = false) :
    (word ++ rest).takeWhile p = word ∧ (word ++ rest).dropWhile p = rest := by
  rw [List.takeWhile_append_of_pos hword, List.dropWhile_append_of_pos hword]
  cases rest with
  | nil => exact ⟨List.append_nil _, rfl⟩
  | cons a rest =>
    have ha : p a = false := hrest a rfl
    simp [ha]

section
variable {blank rest : List UInt8} (hblank : ∀ c ∈ blank, isSpace c = true)
include hblank

theorem skipSpace_blank (input : List UInt8) : skipSpace (blank ++ input) = skipSpace input :=
  List.dropWhile_append_of_pos hblank

theorem extractWord_blank : extractWord blank = none := by
  have hskip : skipSpace blank = [] := by
    have := skipSpace_blank hblank []
    rwa [List.append_nil] at this
  unfold extractWord
  rw [hskip]
  rfl

theorem extractWord_token {word : List UInt8} (hne : word ≠ []) (hword : ∀ c ∈ word, isSpace c = false)
    (hrest : ∀ c ∈ rest.head?, isSpace c = true) : extractWord (blank ++ (word ++ rest)) = some (word, rest) := by
  obtain ⟨c, word, rfl⟩ := List.exists_cons_of_ne_nil hne
  have hc : isSpace c = false := hword c (List.mem_cons_self ..)
  have hskip : skipSpace (blank ++ (c :: word ++ rest)) = c :: word ++ rest := by
    rw [skipSpace_blank hblank, skipSpace, List.cons_append, List.dropWhile_cons_of_neg (by simp [hc])]
  have hspan : (c :: word ++ rest).takeWhile (!isSpace ·) = c :: word ∧
      (c :: word ++ rest).dropWhile (!isSpace ·) = rest :=
    span_stop (fun a ha => by simp [hword a ha]) (fun a ha => by simp [hrest a ha])
  unfold extractWord
  simp only [hskip]
  rw [hspan.1, hspan.2]

end

theorem decimal_ne_nil (n : Nat) : decimal n ≠ [] := by
  unfold decimal
  simp [Nat.toDigits_ne_nil]

theorem digit_range {c : Char} (h : c.isDigit = true) : 48 ≤ c.toNat ∧ c.toNat ≤ 57 := by
  unfold Char.isDigit at h
  simp only [ge_iff_le, Bool.and_eq_true, decide_eq_true_eq, UInt32.le_iff_toNat_le] at h
  exact h

theorem toNat_ofNat_digit {c : Char} (h : c.isDigit = true) : (UInt8.ofNat c.toNat).toNat = c.toNat := by
  have := digit_range h
  rw [UInt8.toNat_ofNat']
  omega

theorem decimal_digits (n : Nat) : ∀ c ∈ decimal n, isDigit c = true := by
  intro c hc
  obtain ⟨d, hd, rfl⟩ := List.mem_map.mp hc
  have hdigit := Nat.isDigit_of_mem_toDigits (by decide) (by decide) hd
  have hrange := digit_range hdigit
  unfold isDigit
  simp only [Bool.and_eq_true, decide_eq_true_eq, UInt8.le_iff_toNat_le, toNat_ofNat_digit hdigit]
  exact hrange

theorem digitsValue_decimal (n : Nat) : digitsValue (decimal n) = n := by
  have hfold : ∀ (l : List Char) (m : Nat), (∀ c ∈ l, c.isDigit = true) →
      (l.map fun c => UInt8.ofNat c.toNat).foldl (fun n c => 10 * n + (c.toNat - 48)) m = Nat.ofDigitChars 10 l m := by
    intro l
    induction l with
    | nil => intro m _; rfl
    | cons c l ih =>
      intro m h
      rw [List.map_cons, List.foldl_cons, ih _ fun d hd => h d (List.mem_cons_of_mem _ hd), Nat.ofDigitChars_cons,
        toNat_ofNat_digit (h c (List.mem_cons_self ..))]
      rfl
  unfold digitsValue decimal
  rw [hfold _ _ fun c hc => Nat.isDigit_of_mem_toDigits (by decide) (by decide) hc, Nat.ofDigitChars_ten_toDigits]

theorem digit_not_space {c : UInt8} (h : isDigit c = true) : isSpace c = false := by
  revert h
  unfold isDigit isSpace
  grind

theorem extractSign_digit {c : UInt8} (h : isDigit c = true) (rest : List UInt8) :
    extractSign (c :: rest) = (false, c :: rest) := by
  unfold extractSign
  split
  · rename_i heq; cases heq; cases h
  · rename_i heq; cases heq; cases h
  · rfl

section
variable {blank rest : List UInt8} (hblank : ∀ c ∈ blank, isSpace c = true)
  (hrest : ∀ c ∈ rest.head?, isSpace c = true)
include hblank hrest

theorem extractNumber_decimal (n : Nat) : extractNumber (blank ++ (decimal n ++ rest)) = some ((false, n), rest) := by
  have hspan := span_stop (decimal_digits n) fun c hc => by
    have hspace := hrest c hc
    cases hd : isDigit c with
    | false => rfl
    | true => rw [digit_not_space hd] at hspace; cases hspace
  have hvalue := digitsValue_decimal n
  have hdigits := decimal_digits n
  obtain ⟨c, digits, hn⟩ := List.exists_cons_of_ne_nil (decimal_ne_nil n)
  rw [hn] at hspan hvalue hdigits ⊢
  have hc := hdigits c (List.mem_cons_self ..)
  have hskip : skipSpace (blank ++ (c :: digits ++ rest)) = c :: digits ++ rest := by
    rw [skipSpace_blank hblank, skipSpace, List.cons_append, List.dropWhile_cons_of_neg (by simp [digit_not_space hc])]
  unfold extractNumber
  rw [hskip, List.cons_append, extractSign_digit hc]
  rw [List.cons_append] at hspan
  simp only [hspan, hvalue]

theorem extractInt64_decimal {n : Nat} (h : n < 2 ^ 63) :
    extractInt64 (blank ++ (decimal n ++ rest)) = some ((n : Int), rest) := by
  unfold extractInt64
  simp only [extractNumber_decimal hblank hrest, Bool.false_eq_true, if_false]
  rw [if_pos (Nat.le_sub_one_of_lt h)]

theorem extractSize_decimal {n : Nat} (h : n < 2 ^ 64) :
    extractSize (blank ++ (decimal n ++ rest)) = some (n, rest) := by
  unfold extractSize
  simp only [extractNumber_decimal hblank hrest, Bool.false_eq_true, if_false]
  rw [if_pos h]

end

/-- The text lists the tokens, with white space between them. -/
inductive Written : List (List UInt8) → List UInt8 → Prop
  | nil {blank : List UInt8} : (∀ c ∈ blank, isSpace c = true) → Written [] blank
  | cons {blank token text : List UInt8} {tokens : List (List UInt8)} : (∀ c ∈ blank, isSpace c = true) →
      (∀ c ∈ text.head?, isSpace c = true) → Written tokens text → Written (token :: tokens) (blank ++ (token ++ text))

theorem written_end {text : List UInt8} (h : Written [] text) : extractWord text = none := by
  cases h with
  | nil hblank => exact extractWord_blank hblank

section
variable {tokens : List (List UInt8)} {text : List UInt8}

theorem written_word {word : List UInt8} (h : Written (word :: tokens) text) (hne : word ≠ [])
    (hword : ∀ c ∈ word, isSpace c = false) : ∃ rest, extractWord text = some (word, rest) ∧ Written tokens rest := by
  cases h with
  | cons hblank hrest htail => exact ⟨_, extractWord_token hblank hne hword hrest, htail⟩

theorem written_int64 {n : Nat} (h : Written (decimal n :: tokens) text) (hn : n < 2 ^ 63) :
    ∃ rest, extractInt64 text = some ((n : Int), rest) ∧ Written tokens rest := by
  cases h with
  | cons hblank hrest htail => exact ⟨_, extractInt64_decimal hblank hrest hn, htail⟩

theorem written_size {n : Nat} (h : Written (decimal n :: tokens) text) (hn : n < 2 ^ 64) :
    ∃ rest, extractSize text = some (n, rest) ∧ Written tokens rest := by
  cases h with
  | cons hblank hrest htail => exact ⟨_, extractSize_decimal hblank hrest hn, htail⟩

end

theorem written_blank {blank text : List UInt8} {tokens : List (List UInt8)} (hblank : ∀ c ∈ blank, isSpace c = true)
    (h : Written tokens text) : Written tokens (blank ++ text) := by
  have happend : ∀ {more : List UInt8}, (∀ c ∈ more, isSpace c = true) → ∀ c ∈ blank ++ more, isSpace c = true :=
    fun hmore => List.forall_mem_append.mpr ⟨hblank, hmore⟩
  cases h with
  | nil hmore => exact .nil (happend hmore)
  | cons hmore hrest htail =>
    rw [← List.append_assoc]
    exact .cons (happend hmore) hrest htail

theorem written_cons {token text : List UInt8} {tokens : List (List UInt8)} (hhead : ∀ c ∈ text.head?, isSpace c = true)
    (h : Written tokens text) : Written (token :: tokens) (token ++ text) :=
  Written.cons (List.forall_mem_nil _) hhead h

/-- Any tokens can be written, with a byte of white space between them. -/
theorem written_intercalate {c : UInt8} (hc : isSpace c = true) :
    ∀ tokens : List (List UInt8), Written tokens ([c].intercalate tokens)
  | [] => .nil (List.forall_mem_nil _)
  | [token] => by
    have hend : Written [token] (token ++ []) := written_cons (by simp) (.nil (List.forall_mem_nil _))
    rw [List.intercalate_singleton]
    rwa [List.append_nil] at hend
  | token :: next :: tokens => by
    have hblank : ∀ a ∈ [c], isSpace a = true := List.forall_mem_singleton.mpr hc
    have htail := written_blank hblank (written_intercalate hc (next :: tokens))
    rw [List.intercalate_cons_cons, List.append_assoc]
    exact written_cons (by simp [hc]) htail

/-! ## What is read -/

theorem extractInt64_range {input rest : List UInt8} {v : Int} (h : extractInt64 input = some (v, rest)) :
    -2 ^ 63 ≤ v ∧ v < 2 ^ 63 := by
  unfold extractInt64 at h
  split at h
  · cases h
  · rename_i negative n _ _
    cases negative with
    | false =>
      simp only [Bool.false_eq_true, if_false] at h
      split at h
      · cases h; omega
      · cases h
    | true =>
      simp only [if_true] at h
      split at h
      · cases h; omega
      · cases h

end ReferenceSystem
