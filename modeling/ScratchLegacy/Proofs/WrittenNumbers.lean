import Mathlib.Algebra.Field.Rat
import Mathlib.Data.Nat.Cast.Field
import ScratchLegacy.Legacy.Emission
import ScratchLegacy.ScriptTree

/-!
# Numbers as they are written

A double that is finite is a rational number, and so is a JSON number, whether it is an
integer or a double. Writing a double may turn it from one kind into the other, and is
right when the rational number stays (`Json.denotes_ofFloat`). An infinity has no JSON
number, and is written as `null` (`Json.ofFloat_of_not_isFinite`).

Text in a number slot or in an argument of a call is read as a number where it is a
numeral, and that number is what the legacy document has to denote. It does
so when it is finite, and text that is no numeral is written as it is
(`Legacy.numeral_literals_written`).
-/

namespace ScratchLegacy

/-! ## The value of a number -/

/-- The rational number that a binary value is. -/
def Exact.value (v : Exact) : ℚ :=
  (if v.negative then -1 else 1) * (v.significand * 2 ^ v.exponent)

/-- **The rational number that a double is**, none for an infinity and for NaN. Both
zeros are `0`. -/
def Number.value? (x : Float) : Option ℚ := (Exact.ofFloat? x).map Exact.value

/-- The rational number that a JSON number is. -/
def JsonNumber.value? : JsonNumber → Option ℚ
  | integer n => some n
  | double x => Number.value? x

/-- The integer that a binary value is equal to is its value. -/
theorem Exact.value_of_toInt? {v : Exact} {n : Int} (h : v.toInt? = some n) : v.value = n := by
  obtain ⟨_, hmagnitude?, rfl⟩ := Option.map_eq_some_iff.mp h
  obtain ⟨m, hm, rfl⟩ : ∃ m : Nat, _ = some m ∧ (m : Int) = _ := by
    simpa using Option.bind_eq_some_iff.mp hmagnitude?
  have hmagnitude : (v.significand : ℚ) * 2 ^ v.exponent = m := by
    split at hm
    · next he =>
      obtain ⟨e, he⟩ := Int.eq_ofNat_of_zero_le he
      cases hm
      rw [he, Int.toNat_natCast, zpow_natCast]
      push_cast
      rfl
    · next he =>
      obtain ⟨e, he⟩ := Int.exists_eq_neg_ofNat (le_of_lt (not_le.mp he))
      rw [he, neg_neg, Int.toNat_natCast] at hm
      obtain ⟨hdvd, hm⟩ := Option.ite_none_right_eq_some.mp hm
      cases hm
      have hpow : ((2 ^ e : Nat) : ℚ) ≠ 0 := Nat.cast_ne_zero.mpr (pow_ne_zero e two_ne_zero)
      rw [he, zpow_neg, zpow_natCast, Nat.cast_div (Nat.dvd_of_mod_eq_zero hdvd) hpow,
        Nat.cast_pow, Nat.cast_ofNat, div_eq_mul_inv]
  rw [value, hmagnitude]
  cases v.negative <;> simp

namespace Json

/-- **A JSON value denotes a double**: it is a number equal to it, or a text that is read
as it. -/
inductive Denotes (x : Float) : Json → Prop
  | number {n : JsonNumber} {q : ℚ} (value : n.value? = some q)
      (equal : Number.value? x = some q) : Denotes x (.number n)
  | text {s : String} (reads : Numeral.read? s = some x) : Denotes x (.text s)

variable {x : Float}

/-- **A finite double is written as a number equal to it.** -/
theorem denotes_ofFloat (h : Number.isFinite x = true) : Denotes x (ofFloat x) := by
  obtain ⟨v, hv⟩ := Option.isSome_iff_exists.mp h
  have hvalue : Number.value? x = some v.value := by rw [Number.value?, hv, Option.map_some]
  have hdouble : Denotes x (ofDouble x) := by
    rw [ofDouble, if_pos h]
    exact .number hvalue hvalue
  unfold ofFloat
  split
  · next n hn =>
    split
    · rw [Number.toInt?, hv, Option.bind_some] at hn
      refine .number rfl ?_
      rw [hvalue, Exact.value_of_toInt? hn]
    · exact hdouble
  · exact hdouble

/-- **An infinity is written as `null`**, and so is NaN. -/
theorem ofFloat_of_not_isFinite (h : ¬ Number.isFinite x = true) : ofFloat x = .null := by
  have hnone : Exact.ofFloat? x = none := Option.not_isSome_iff_eq_none.mp h
  rw [ofFloat, Number.toInt?, hnone, Option.bind_none, ofDouble, if_neg h]

end Json

/-! ## Numerals in literals -/

/-- **An input is a literal text**, in a text slot or in a number slot. -/
def Input.IsLiteralText (input : Input) (s : String) : Prop :=
  input = .text s ∨ input = .number (.text s)

section Literals

variable {owner slot : String} {parts : List Json} {code : Int} {s : String}

/-- **Text in a number slot** is the number that it denotes, or stays text. -/
theorem literalInput?_of_number (hcode : parts.head?.bind Json.asInt? = some code)
    (hnumber : 4 ≤ code ∧ code ≤ 7) (hs : parts[1]? = some (.text s)) :
    literalInput? owner slot parts = some (.number (Scalar.ofNumeral s)) := by
  have hcases : code = 4 ∨ code = 5 ∨ code = 6 ∨ code = 7 := by omega
  rcases hcases with rfl | rfl | rfl | rfl <;>
  · simp only [literalInput?, hcode, hs]
    rfl

/-- **Text in an angle slot** is the number that it denotes, or zero. -/
theorem literalInput?_of_angle (hcode : parts.head?.bind Json.asInt? = some 8)
    (hs : parts[1]? = some (.text s)) :
    literalInput? owner slot parts = some (.angle ((Numeral.read? s).getD 0)) := by
  simp only [literalInput?, hcode, hs, Option.bind_some, InputStatus.ofCode?, Scalar.ofLiteral,
    Scalar.ofNumeral]
  cases Numeral.read? s <;> rfl

end Literals

namespace Legacy

/-- **What the legacy document holds for an input**, where it is read as an expression. -/
def written (specOf : String → String) (input : Input) : Json :=
  (readInput specOf input).expression.value.toJson

/-- **A text is written as the number that it denotes**, or as `null` where that number is
not finite. -/
structure WritesNumeral (s : String) (v : Json) : Prop where
  finite : ∀ x, Numeral.read? s = some x → Number.isFinite x = true → Json.Denotes x v
  infinite : ∀ x, Numeral.read? s = some x → ¬ Number.isFinite x = true → v = .null

/-- A text that is written as the number it is read as. -/
theorem WritesNumeral.of_ofFloat {s : String} {v : Json}
    (h : ∀ x, Numeral.read? s = some x → v = Json.ofFloat x) : WritesNumeral s v where
  finite x hx hfinite := h x hx ▸ Json.denotes_ofFloat hfinite
  infinite x hx hinfinite := (h x hx).trans (Json.ofFloat_of_not_isFinite hinfinite)

variable (specOf : String → String) (s : String)

/-- The text of a number slot is written as the number it denotes, or as it is. -/
theorem written_ofNumeral :
    written specOf (.number (Scalar.ofNumeral s))
      = ((Numeral.read? s).map Json.ofFloat).getD (.text s) := by
  show (Scalar.ofNumeral s).toJson = _
  unfold Scalar.ofNumeral
  cases Numeral.read? s <;> rfl

/-- **Text as an argument of a call** is written as the number it denotes, or as it is. -/
theorem written_callArgument {input : Input} (h : input.IsLiteralText s) :
    written specOf (callArgument input)
      = ((Numeral.read? s).map Json.ofFloat).getD (.text s) := by
  rcases h with rfl | rfl <;>
  · simp only [callArgument]
    cases Numeral.read? s <;> rfl

/-- The text of a number slot is written alike as an argument of a call. -/
theorem written_callArgument_ofNumeral :
    written specOf (callArgument (.number (Scalar.ofNumeral s)))
      = ((Numeral.read? s).map Json.ofFloat).getD (.text s) := by
  unfold Scalar.ofNumeral
  cases hread : Numeral.read? s with
  | some x => rfl
  | none => rw [written_callArgument specOf s (.inr rfl), hread]

/-- **Numerals in literals are not lost.** The text of a number slot or of an angle slot
is decoded to an input, whether or not the slot is an argument of a call. Where the text
denotes a finite number, the legacy document holds a value that denotes it, and `null`
where it denotes an infinite one. Where it denotes none, the text of a number slot stays
what it is. The same holds of any text that a call has as an argument. -/
theorem numeral_literals_written :
    (∀ owner slot parts code, parts.head?.bind Json.asInt? = some code → 4 ≤ code → code ≤ 8 →
      parts[1]? = some (.text s) → ∃ input, literalInput? owner slot parts = some input
        ∧ ∀ input' ∈ [input, callArgument input], WritesNumeral s (written specOf input')
          ∧ (code ≤ 7 → Numeral.read? s = none → written specOf input' = .text s))
      ∧ ∀ input : Input, input.IsLiteralText s →
        WritesNumeral s (written specOf (callArgument input))
          ∧ (Numeral.read? s = none → written specOf (callArgument input) = .text s) := by
  -- where the text is read as a number, that number is written
  have hnumeral : ∀ v, v = ((Numeral.read? s).map Json.ofFloat).getD (.text s) →
      WritesNumeral s v ∧ (Numeral.read? s = none → v = .text s) := by
    rintro v rfl
    refine ⟨.of_ofFloat (fun x hx => ?_), fun hnone => ?_⟩
    · rw [hx, Option.map_some, Option.getD_some]
    · rw [hnone, Option.map_none, Option.getD_none]
  refine ⟨fun owner slot parts code hcode h4 h8 hs => ?_, fun input hinput =>
    hnumeral _ (written_callArgument specOf s hinput)⟩
  rcases Int.lt_or_eq_of_le h8 with h8 | rfl
  · refine ⟨_, literalInput?_of_number hcode ⟨h4, Int.lt_add_one_iff.mp h8⟩ hs, ?_⟩
    rw [List.forall_mem_cons, List.forall_mem_singleton]
    have hslot := hnumeral _ (written_ofNumeral specOf s)
    have hargument := hnumeral _ (written_callArgument_ofNumeral specOf s)
    exact ⟨⟨hslot.1, fun _ => hslot.2⟩, ⟨hargument.1, fun _ => hargument.2⟩⟩
  · refine ⟨_, literalInput?_of_angle hcode hs, ?_⟩
    have hangle : WritesNumeral s (written specOf (.angle ((Numeral.read? s).getD 0))) := by
      refine .of_ofFloat (fun x hx => ?_)
      rw [hx]
      rfl
    rw [List.forall_mem_cons, List.forall_mem_singleton]
    exact ⟨⟨hangle, fun h => absurd h (by decide)⟩, ⟨hangle, fun h => absurd h (by decide)⟩⟩

/-- A number slot with the text `1e3` is written as a number equal to a thousand. -/
theorem thousand_written :
    ∃ input, literalInput? "move" "STEPS" [.number (.integer 4), .text "1e3"] = some input
      ∧ Json.Denotes 1000 (written (fun _ => "") input) := by
  have hread : Numeral.read? "1e3" = some 1000 := by decide +kernel
  obtain ⟨input, hinput, hwritten⟩ := (numeral_literals_written (fun _ => "") "1e3").1
    "move" "STEPS" [.number (.integer 4), .text "1e3"] 4 rfl (by decide) (by decide) rfl
  refine ⟨input, hinput, ?_⟩
  exact (hwritten input List.mem_cons_self).1.finite 1000 hread (by decide +kernel)

/-- The text `Infinity` in a number slot denotes a number, and is written as `null`, which
denotes none. -/
theorem infinity_not_written :
    Numeral.read? "Infinity" = some (1 / 0)
      ∧ ∃ input, literalInput? "move" "STEPS" [.number (.integer 4), .text "Infinity"] = some input
        ∧ written (fun _ => "") input = .null
        ∧ ¬ Json.Denotes (1 / 0) (written (fun _ => "") input) := by
  refine ⟨rfl, _, rfl, rfl, ?_⟩
  rintro ⟨_⟩

end Legacy

end ScratchLegacy
