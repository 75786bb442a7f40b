import ScratchLegacy.Proofs.NumeralGrammar
import ScratchLegacy.Proofs.SlotFilling
import ScratchLegacy.Proofs.WrittenNumbers

/-!
# Colors as texts and as numbers

A color is a text of `#` and six hexadecimal digits in the current format and one number
in the legacy format. The number is the one that the six digits spell, so nothing is lost
on the way through the three channels (`Color.spelled_and_packed`).

The digits of a channel are read as a number of their own, before which a plus sign may
stand. So a text with a plus sign in the first place of a channel is taken for a color as
well, with a zero in that place (`Color.IsSpelling`, `Color.plus_is_no_digit`).
-/

namespace ScratchLegacy

namespace Color

open Numeral

/-- **Six characters that spell a color**: each is a hexadecimal digit, or a plus sign in
the first place of its channel. -/
structure IsSpelling (ds : List Char) : Prop where
  length : ds.length = 6
  digit : ∀ i d, ds[i]? = some d → digitValue d < 16 ∨ d = '+' ∧ i % 2 = 0

/-- Characters with a zero in the place of every plus sign. -/
def withoutPlus (ds : List Char) : List Char := ds.map (fun d => if d = '+' then '0' else d)

/-- The value of a character with a zero in the place of a plus sign. -/
def placeValue (d : Char) : Nat := if d = '+' then 0 else digitValue d

variable {high low : Char} {ds : List Char} {c c' : Color} {text : String}

/-- A digit counts as what it is. -/
theorem placeValue_of_lt {d : Char} (h : digitValue d < 16) : placeValue d = digitValue d := by
  refine if_neg ?_
  rintro rfl
  exact absurd h (by decide)

/-- What is spelled without plus signs is the sum of the places. -/
theorem spelled_withoutPlus (r₁ r₀ g₁ g₀ b₁ b₀ : Char) :
    spelled 16 (withoutPlus [r₁, r₀, g₁, g₀, b₁, b₀])
      = (placeValue r₁ * 16 + placeValue r₀) * 65536 + (placeValue g₁ * 16 + placeValue g₀) * 256
        + (placeValue b₁ * 16 + placeValue b₀) := by
  have hvalue : ∀ d : Char, digitValue (if d = '+' then '0' else d) = placeValue d := by
    intro d
    unfold placeValue
    split
    · decide
    · rfl
  simp only [spelled, withoutPlus, List.map_cons, List.map_nil, List.reverse_cons, List.reverse_nil,
    List.nil_append, List.cons_append, Nat.ofDigits_cons, Nat.ofDigits_nil, hvalue]
  omega

/-- Two characters that can spell a channel: two digits, or a plus sign and a digit. -/
def IsChannel (high low : Char) : Prop :=
  (digitValue high < 16 ∨ high = '+') ∧ digitValue low < 16

/-- The value of a channel fits a byte. -/
theorem IsChannel.lt (h : IsChannel high low) : placeValue high * 16 + placeValue low < 256 := by
  obtain ⟨hhigh, hlow⟩ := h
  rw [placeValue_of_lt hlow]
  rcases hhigh with hhigh | rfl
  · rw [placeValue_of_lt hhigh]
    omega
  · exact (Nat.add_lt_add_left hlow _).trans (by decide)

/-- **The number in a channel**: of two digits, or of one behind a plus sign. -/
theorem unsigned?_channel {n : Nat} :
    unsigned? 16 256 [high, low] = some n ↔
      IsChannel high low ∧ n = placeValue high * 16 + placeValue low := by
  have htwo : IsDigits 16 [high, low] ↔ digitValue high < 16 ∧ digitValue low < 16 := by
    simp [IsDigits]
  have hone : IsDigits 16 [low] ↔ digitValue low < 16 := by simp [IsDigits]
  have hspelled : spelled 16 [high, low] = digitValue high * 16 + digitValue low := by
    simp [spelled, Nat.ofDigits_cons]
    omega
  have hspelled' : spelled 16 [low] = digitValue low := by simp [spelled, Nat.ofDigits_cons]
  rw [unsigned?_eq_some_iff (by decide)]
  constructor
  · rintro ⟨ds, heq | heq, hdigits, rfl, -⟩
    · subst heq
      obtain ⟨hhigh, hlow⟩ := htwo.mp hdigits
      rw [placeValue_of_lt hhigh, placeValue_of_lt hlow, hspelled]
      exact ⟨⟨.inl hhigh, hlow⟩, rfl⟩
    · cases heq
      have hlow := hone.mp hdigits
      rw [placeValue_of_lt hlow, hspelled']
      exact ⟨⟨.inr rfl, hlow⟩, (Nat.zero_add _).symm⟩
  · rintro ⟨hchannel, rfl⟩
    have hlt := hchannel.lt
    obtain ⟨hhigh | rfl, hlow⟩ := hchannel
    · refine ⟨[high, low], .inl rfl, htwo.mpr ⟨hhigh, hlow⟩, ?_, hlt⟩
      rw [placeValue_of_lt hhigh, placeValue_of_lt hlow, hspelled]
    · refine ⟨[low], .inr rfl, hone.mpr hlow, ?_, hlt⟩
      rw [placeValue_of_lt hlow, hspelled']
      exact Nat.zero_add _

/-- **A channel is read from two characters.** -/
theorem channel?_eq_some_iff {b : UInt8} :
    channel? high low = some b ↔
      IsChannel high low ∧ b.toNat = placeValue high * 16 + placeValue low := by
  rw [channel?, Option.map_eq_some_iff]
  simp only [unsigned?_channel]
  constructor
  · rintro ⟨n, ⟨hchannel, rfl⟩, rfl⟩
    exact ⟨hchannel, Nat.mod_eq_of_lt hchannel.lt⟩
  · rintro ⟨hchannel, hb⟩
    refine ⟨b.toNat, ⟨hchannel, hb⟩, UInt8.ofNat_toNat⟩

/-- Two characters that can spell a channel do. -/
theorem IsChannel.exists_channel? (h : IsChannel high low) : ∃ b, channel? high low = some b := by
  refine ⟨UInt8.ofNat (placeValue high * 16 + placeValue low), channel?_eq_some_iff.mpr ⟨h, ?_⟩⟩
  exact Nat.mod_eq_of_lt h.lt

/-- A color is told by its packed number. -/
theorem packed_injective (h : c.packed = c'.packed) : c = c' := by
  obtain ⟨red, green, blue⟩ := c
  obtain ⟨red', green', blue'⟩ := c'
  have hgreen := green.toNat_lt
  have hblue := blue.toNat_lt
  have hgreen' := green'.toNat_lt
  have hblue' := blue'.toNat_lt
  simp only [packed] at h
  rw [mk.injEq, ← UInt8.toNat_inj, ← UInt8.toNat_inj, ← UInt8.toNat_inj]
  omega

/-- The spellings are three channels. -/
theorem isSpelling_iff :
    IsSpelling ds ↔ ∃ r₁ r₀ g₁ g₀ b₁ b₀, ds = [r₁, r₀, g₁, g₀, b₁, b₀]
      ∧ IsChannel r₁ r₀ ∧ IsChannel g₁ g₀ ∧ IsChannel b₁ b₀ := by
  constructor
  · rintro ⟨hlength, hdigit⟩
    match ds, hlength with
    | [r₁, r₀, g₁, g₀, b₁, b₀], _ =>
      refine ⟨r₁, r₀, g₁, g₀, b₁, b₀, rfl, ⟨?_, ?_⟩, ⟨?_, ?_⟩, ⟨?_, ?_⟩⟩
      · exact (hdigit 0 _ rfl).imp_right And.left
      · exact (hdigit 1 _ rfl).resolve_right (fun h => absurd h.2 (by decide))
      · exact (hdigit 2 _ rfl).imp_right And.left
      · exact (hdigit 3 _ rfl).resolve_right (fun h => absurd h.2 (by decide))
      · exact (hdigit 4 _ rfl).imp_right And.left
      · exact (hdigit 5 _ rfl).resolve_right (fun h => absurd h.2 (by decide))
  · rintro ⟨r₁, r₀, g₁, g₀, b₁, b₀, rfl, hr, hg, hb⟩
    refine ⟨rfl, fun i d hd => ?_⟩
    match i with
    | 0 => cases hd; exact hr.1.imp_right (⟨·, rfl⟩)
    | 1 => cases hd; exact .inl hr.2
    | 2 => cases hd; exact hg.1.imp_right (⟨·, rfl⟩)
    | 3 => cases hd; exact .inl hg.2
    | 4 => cases hd; exact hb.1.imp_right (⟨·, rfl⟩)
    | 5 => cases hd; exact .inl hb.2
    | i + 6 => cases hd

/-- **The texts of colors**: `#` and the spelling of three channels, whose number is the
packed color. -/
theorem ofHex?_eq_some_iff :
    ofHex? text = some c ↔
      ∃ ds, text.toList = '#' :: ds ∧ IsSpelling ds ∧ c.packed = spelled 16 (withoutPlus ds) := by
  have hpacked : ∀ {r₁ r₀ g₁ g₀ b₁ b₀ : Char} {red green blue : UInt8},
      channel? r₁ r₀ = some red → channel? g₁ g₀ = some green → channel? b₁ b₀ = some blue →
        packed ⟨red, green, blue⟩ = spelled 16 (withoutPlus [r₁, r₀, g₁, g₀, b₁, b₀]) := by
    intro r₁ r₀ g₁ g₀ b₁ b₀ red green blue hred hgreen hblue
    rw [spelled_withoutPlus, packed, (channel?_eq_some_iff.mp hred).2,
      (channel?_eq_some_iff.mp hgreen).2, (channel?_eq_some_iff.mp hblue).2]
  constructor
  · intro h
    unfold ofHex? at h
    split at h
    · next r₁ r₀ g₁ g₀ b₁ b₀ htext =>
      obtain ⟨red, hred, h⟩ := Option.bind_eq_some_iff.mp h
      obtain ⟨green, hgreen, h⟩ := Option.bind_eq_some_iff.mp h
      obtain ⟨blue, hblue, h⟩ := Option.bind_eq_some_iff.mp h
      cases h
      exact ⟨_, htext, isSpelling_iff.mpr ⟨r₁, r₀, g₁, g₀, b₁, b₀, rfl,
        (channel?_eq_some_iff.mp hred).1, (channel?_eq_some_iff.mp hgreen).1,
        (channel?_eq_some_iff.mp hblue).1⟩, hpacked hred hgreen hblue⟩
    · cases h
  · rintro ⟨ds, htext, hspelling, hc⟩
    obtain ⟨r₁, r₀, g₁, g₀, b₁, b₀, rfl, hr, hg, hb⟩ := isSpelling_iff.mp hspelling
    obtain ⟨red, hred⟩ := hr.exists_channel?
    obtain ⟨green, hgreen⟩ := hg.exists_channel?
    obtain ⟨blue, hblue⟩ := hb.exists_channel?
    have heq : c = ⟨red, green, blue⟩ :=
      packed_injective (hc.trans (hpacked hred hgreen hblue).symm)
    simp only [ofHex?, htext, hred, hgreen, hblue, heq]
    rfl

/-- Without plus signs, what spells a color are six digits. -/
theorem isSpelling_iff_of_no_plus (h : '+' ∉ ds) :
    IsSpelling ds ↔ ds.length = 6 ∧ IsDigits 16 ds := by
  constructor
  · rintro ⟨hlength, hdigit⟩
    refine ⟨hlength, List.ne_nil_of_length_pos (hlength ▸ by decide), fun d hd => ?_⟩
    obtain ⟨i, hi⟩ := List.mem_iff_getElem?.mp hd
    exact (hdigit i d hi).resolve_right (fun hplus => h (hplus.1 ▸ hd))
  · rintro ⟨hlength, -, hdigits⟩
    exact ⟨hlength, fun i d hd => .inl (hdigits d (List.mem_of_getElem? hd))⟩

/-- Without plus signs there is nothing to replace. -/
theorem withoutPlus_of_no_plus (h : '+' ∉ ds) : withoutPlus ds = ds := by
  have hself : ∀ d ∈ ds, (if d = '+' then '0' else d) = d := by
    intro d hd
    refine if_neg ?_
    rintro rfl
    exact h hd
  rw [withoutPlus, List.map_congr_left hself, List.map_id']

/-- **The slot of a color** holds the color that its text spells, and is skipped where it
spells none. -/
theorem literalInput?_of_color {owner slot : String} {parts : List Json}
    (hcode : parts.head?.bind Json.asInt? = some 9) :
    literalInput? owner slot parts
      = (ofHex? (Json.scalarText? parts[1]?)).map Input.color := by
  simp only [literalInput?, hcode]
  rfl

/-- A color is written as its packed number, also where it is an argument of a call. -/
theorem written_color (specOf : String → String) (c : Color) :
    ∀ input ∈ [Input.color c, callArgument (.color c)],
      Legacy.written specOf input = .number (.integer c.packed) := by
  rw [List.forall_mem_cons, List.forall_mem_singleton]
  exact ⟨rfl, rfl⟩

/-- **Colors are read exactly and packed back.** Of the texts without a plus sign, those
of `#` and six hexadecimal digits are colors, and the packed color is the number that the
digits spell. With plus signs, those are colors as well that have one only before the
second digit of a channel, and they spell a zero there. A slot with the text of a color is
filled with it and written as the packed number, and a slot with another text is skipped. -/
theorem spelled_and_packed (text : String) :
    ('+' ∉ text.toList → ∀ c, ofHex? text = some c ↔
        ∃ ds, text.toList = '#' :: ds ∧ ds.length = 6 ∧ IsDigits 16 ds
          ∧ c.packed = spelled 16 ds)
      ∧ (∀ c, ofHex? text = some c ↔
          ∃ ds, text.toList = '#' :: ds ∧ IsSpelling ds ∧ c.packed = spelled 16 (withoutPlus ds))
      ∧ ∀ (t : BlockTable) inline owner opcode slot (parts : List Json),
        parts.head?.bind Json.asInt? = some 9 → Json.scalarText? parts[1]? = text →
          (∀ c, ofHex? text = some c →
              t.slotSteps inline owner opcode (slot, .literal parts) = [.fill slot (.color c)]
              ∧ ∀ specOf, ∀ input ∈ [Input.color c, callArgument (.color c)],
                Legacy.written specOf input = .number (.integer c.packed))
            ∧ (ofHex? text = none →
              t.slotSteps inline owner opcode (slot, .literal parts) = []) := by
  refine ⟨fun hplus c => ?_, fun c => ofHex?_eq_some_iff, ?_⟩
  · rw [ofHex?_eq_some_iff]
    refine exists_congr fun ds => and_congr_right fun htext => ?_
    have hds : '+' ∉ ds := fun hmem => hplus (htext ▸ List.mem_cons_of_mem _ hmem)
    rw [isSpelling_iff_of_no_plus hds, withoutPlus_of_no_plus hds, and_assoc]
  · rintro t inline owner opcode slot parts hcode rfl
    have hsteps : t.slotSteps inline owner opcode (slot, .literal parts)
        = (((ofHex? (Json.scalarText? parts[1]?)).map Input.color).map
            (Step.fill slot)).toList := by
      rw [BlockTable.slotSteps_literal, literalInput?_of_color hcode]
    refine ⟨fun c hc => ⟨?_, fun specOf => written_color specOf c⟩, fun hnone => ?_⟩
    · rw [hsteps, hc]
      rfl
    · rw [hsteps, hnone]
      rfl

/-- The text `#ff8000` spells orange. -/
theorem orange_spelled :
    '+' ∉ "#ff8000".toList ∧ ofHex? "#ff8000" = some ⟨255, 128, 0⟩
      ∧ BlockTable.slotSteps [] (fun _ _ _ => []) "touch" "sensing_touchingcolor"
          ("COLOR", .literal [.number (.integer 9), .text "#ff8000"])
        = [.fill "COLOR" (.color ⟨255, 128, 0⟩)] := by
  have hplus : '+' ∉ "#ff8000".toList := by decide
  have horange : ofHex? "#ff8000" = some ⟨255, 128, 0⟩ :=
    ((spelled_and_packed "#ff8000").1 hplus _).mpr
      ⟨"ff8000".toList, by decide, by decide, by decide, by decide⟩
  exact ⟨hplus, horange,
    (((spelled_and_packed "#ff8000").2.2 _ _ _ _ _ _ rfl rfl).1 _ horange).1⟩

/-- **The text `#+f+f+f` is a color**, although three of its six characters are no digits. -/
theorem plus_is_no_digit :
    ofHex? "#+f+f+f" = some ⟨15, 15, 15⟩
      ∧ ¬ ∃ ds, "#+f+f+f".toList = '#' :: ds ∧ ds.length = 6 ∧ IsDigits 16 ds := by
  refine ⟨by decide, ?_⟩
  rintro ⟨ds, hds, -, -, hdigits⟩
  have hmem : '+' ∈ ds := by
    have htail : "#+f+f+f".toList.tail = ds := by rw [hds, List.tail_cons]
    rw [← htail]
    decide
  exact absurd (hdigits '+' hmem) (by decide)

end Color

end ScratchLegacy
