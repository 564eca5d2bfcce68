import ReferenceSystem.RecordTextsSound
import ReferenceSystem.Tracking

/-!
# Two encoders of strings

`json_quote` and `json_escape` were written apart. Of the control characters
`json_quote` knows only the two line breaks; every other one it copies, and no
reader accepts that inside a string. All other bytes the two write alike.
-/

namespace ReferenceSystem

open Json (encode decode)

/-! ## Bytes -/

/-- What `json_quote` writes like `json_escape`: no control character but the line breaks. -/
def isQuotable (c : UInt8) : Bool := 32 ≤ c || c == 10 || c == 13

theorem quoteByte_quotable {c : UInt8} (h : isQuotable c = true) : quoteByte c = Json.escapeByte c :=
  byte_forall (P := fun c => isQuotable c = true → quoteByte c = Json.escapeByte c) (by decide +kernel) c h

theorem quoteByte_control {c : UInt8} (h : isQuotable c = false) : c < 32 ∧ quoteByte c = [c] :=
  byte_forall (P := fun c => isQuotable c = false → c < 32 ∧ quoteByte c = [c]) (by decide +kernel) c h

theorem length_quoteByte (c : UInt8) : 1 ≤ (quoteByte c).length := by
  cases hc : isQuotable c with
  | false =>
    rw [(quoteByte_control hc).2]
    exact Nat.le_refl 1
  | true =>
    rw [quoteByte_quotable hc]
    exact Json.length_escapeByte c

/-! ## Strings -/

theorem jsonQuote_cons (value : Bytes) : jsonQuote value = 34 :: (value.flatMap quoteByte ++ [34]) := by
  have hquote : ascii "\"" = [34] := by rfl
  rw [jsonQuote, hquote]
  rfl

theorem reads_jsonQuote (value : Bytes) :
    Json.Reads (jsonQuote value) (if value.all isQuotable then some (.str value) else none) := by
  intro rest n _ hn
  have hlength := Json.length_written length_quoteByte value
  obtain ⟨m, rfl⟩ := Nat.exists_eq_succ_of_ne_zero (show n ≠ 0 by omega)
  rw [jsonQuote_cons, List.cons_append, List.append_assoc, List.singleton_append, Json.readValue_string, Json.readString,
    Json.readChars_written quoteByte isQuotable (fun _ => quoteByte_quotable) (fun _ => quoteByte_control) value rest _
      (by rw [List.length_append]; omega)]
  cases value.all isQuotable with
  | false => rfl
  | true => rfl

theorem jsonQuote_eq {value : Bytes} (h : value.all isQuotable = true) : jsonQuote value = encode (.str value) := by
  have hbytes : value.flatMap quoteByte = value.flatMap Json.escapeByte :=
    List.flatMap_congr fun c hc => quoteByte_quotable (List.all_eq_true.mp h c hc)
  rw [jsonQuote_cons, hbytes]
  rfl

/-- **The encoders agree exactly on strings without other control characters**,
and only these are read back from what `json_quote` writes; what `json_escape`
writes is always read back. -/
theorem json_encoders_agree (value : Bytes) :
    (jsonQuote value = ascii "\"" ++ jsonEscape value ++ ascii "\"" ↔ value.all isQuotable = true) ∧
    (decode (jsonQuote value) = some (.str value) ↔ value.all isQuotable = true) ∧
    (value.all isQuotable = false → decode (jsonQuote value) = none) ∧
    decode (ascii "\"" ++ jsonEscape value ++ ascii "\"") = some (.str value) := by
  have hquote := (reads_jsonQuote value).decode_eq
  have hescape : decode (ascii "\"" ++ jsonEscape value ++ ascii "\"") = some (.str value) := by
    rw [quoted_jsonEscape, Json.decode_encode]
  have hread : decode (jsonQuote value) = some (.str value) ↔ value.all isQuotable = true := by
    rw [hquote]
    cases value.all isQuotable with
    | false => simp
    | true => simp
  refine ⟨⟨fun hsame => ?_, fun h => ?_⟩, hread, fun h => ?_, hescape⟩
  · rw [← hread, hsame, hescape]
  · rw [quoted_jsonEscape, jsonQuote_eq h]
  · rw [hquote, h]
    rfl

/-- An instance named with a tab. -/
theorem tabbedInstance_rejected :
    jsonQuote (processInstanceId (some (ascii "a\tb")) 0 0) ≠
      ascii "\"" ++ jsonEscape (processInstanceId (some (ascii "a\tb")) 0 0) ++ ascii "\"" ∧
    decode (jsonQuote (processInstanceId (some (ascii "a\tb")) 0 0)) = none := by
  decide

end ReferenceSystem
