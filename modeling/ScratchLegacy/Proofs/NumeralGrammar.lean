import Mathlib.Data.List.Induction
import Mathlib.Data.List.TakeWhile
import Mathlib.Data.Nat.Digits.Defs
import ScratchLegacy.Numeral

/-!
# The grammar of numerals

`Numeral.read?` goes through a text in several passes: it counts the signs, looks for the
word `Infinity` and for the prefix of a hexadecimal numeral, checks the characters, and
only then reads. Here the texts that it accepts are described without the passes, by a
grammar in three cases that also says what a text denotes (`Numeral.Denotes`).

The passes accept this grammar and one form more (`Numeral.read?_eq_some_iff`): behind
the prefix, a plus sign may stand before the digits, although a numeral with a prefix has
no sign in the grammar. The text `0x+1f` is read as thirty-one (`Numeral.plus_slips_through`).
-/

namespace ScratchLegacy.Numeral

/-! ## Digits -/

/-- The digits of all bases up to sixteen, in the order of their values. -/
def alphabet : List Char := "0123456789abcdef".toList

/-- **The value of a digit**, in upper or lower case. What is no digit has the value
sixteen. -/
def digitValue (c : Char) : Nat := alphabet.idxOf c.toLower

/-- **A word of digits**: there is at least one, and each is below the base. -/
def IsDigits (base : Nat) (ds : List Char) : Prop := ds ≠ [] ∧ ∀ d ∈ ds, digitValue d < base

instance (base : Nat) (ds : List Char) : Decidable (IsDigits base ds) :=
  have : Decidable (∀ d ∈ ds, digitValue d < base) := List.decidableBAll _ _
  inferInstanceAs (Decidable (_ ∧ _))

/-- **The number that digits spell**, the highest digit first. -/
def spelled (base : Nat) (ds : List Char) : Nat := Nat.ofDigits base (ds.map digitValue).reverse

variable {base n : Nat} {c : Char} {ds cs : List Char}

/-- One digit more at the end. -/
theorem spelled_concat (base : Nat) (ds : List Char) (d : Char) :
    spelled base (ds ++ [d]) = base * spelled base ds + digitValue d := by
  rw [spelled, List.map_append, List.map_singleton, List.reverse_concat, Nat.ofDigits_cons,
    Nat.add_comm, spelled]

/-- A character beyond the first 128 is behind each of these. -/
theorem not_le_of_ascii {a : Char} (h : 128 ≤ c.toNat) (ha : a.toNat < 128) : ¬ c ≤ a :=
  fun hle => Nat.not_lt.mpr (h.trans hle) ha

/-- Characters beyond the first 128 are no digits. -/
theorem digitValue_of_le (h : 128 ≤ c.toNat) : digitValue c = 16 := by
  have hlower : c.toLower = c := dif_neg (fun hupper => not_le_of_ascii h (by decide) hupper.2)
  have hmem : c ∉ alphabet := by
    have hascii : alphabet.all (fun d => d.toNat < 128) = true := by decide
    exact fun hmem => Nat.not_lt.mpr h (of_decide_eq_true (List.all_eq_true.mp hascii c hmem))
  rw [digitValue, hlower, List.idxOf_eq_length hmem]
  rfl

/-- Hexadecimal digits are read at their value. -/
theorem digit?_sixteen (c : Char) :
    digit? 16 c = if digitValue c < 16 then some (digitValue c) else none := by
  rcases Nat.lt_or_ge c.toNat 128 with h | h
  · rw [← Char.ofNat_toNat c]
    revert h
    generalize c.toNat = code
    revert code
    decide +kernel
  · have hle : ∀ a : Char, a.toNat < 128 → ¬ c ≤ a := fun a => not_le_of_ascii h
    rw [digitValue_of_le h, digit?]
    simp (disch := decide) [hle]

/-- **Digits of a base up to sixteen are read at their value.** -/
theorem digit?_eq (hbase : base ≤ 16) (c : Char) :
    digit? base c = if digitValue c < base then some (digitValue c) else none := by
  have hbelow : digit? base c
      = (digit? 16 c).bind (fun n => if n < base then some n else none) := by
    unfold digit?
    dsimp only
    rw [Option.bind_assoc]
    refine congrArg (Option.bind _) (funext fun n => ?_)
    by_cases hn : n < base
    · rw [if_pos hn, if_pos (hn.trans_le hbase), Option.bind_some, if_pos hn]
    · rw [if_neg hn]
      split
      · exact (if_neg hn).symm
      · rfl
  rw [hbelow, digit?_sixteen]
  by_cases hvalue : digitValue c < base
  · rw [if_pos (hvalue.trans_le hbase), Option.bind_some]
  · rw [if_neg hvalue]
    split
    · exact if_neg hvalue
    · rfl

/-- The decimal digits are the characters that count as digits in a literal. -/
theorem digitValue_lt_ten_iff (c : Char) : digitValue c < 10 ↔ c.isDigit = true := by
  rcases Nat.lt_or_ge c.toNat 128 with h | h
  · rw [← Char.ofNat_toNat c]
    revert h
    generalize c.toNat = code
    revert code
    decide +kernel
  · refine iff_of_false (by rw [digitValue_of_le h]; decide) (fun hdigit => ?_)
    have hnine : c ≤ '9' := of_decide_eq_true (Bool.and_eq_true_iff.mp hdigit).2
    exact not_le_of_ascii h (by decide) hnine

/-- **A word of digits is read as the number that it spells**, and no other text is. -/
theorem digits?_eq_some_iff (hbase : base ≤ 16) :
    digits? base cs = some n ↔ IsDigits base cs ∧ n = spelled base cs := by
  -- the digits read so far, with one more at the end
  have hfold : cs.foldl (fun n? c => n?.bind fun n => (digit? base c).map (base * n + ·)) (some 0)
      = if cs.all (fun d => digitValue d < base) then some (spelled base cs) else none := by
    induction cs using List.reverseRecOn with
    | nil => rfl
    | append_singleton cs d ih =>
      rw [List.foldl_append, ih, List.foldl_cons, List.foldl_nil, digit?_eq hbase,
        spelled_concat, List.all_append, List.all_cons, List.all_nil, Bool.and_true]
      by_cases hd : digitValue d < base
      · rw [if_pos hd, decide_eq_true hd, Bool.and_true]
        split <;> rfl
      · rw [if_neg hd, decide_eq_false hd, Bool.and_false]
        split <;> rfl
  cases cs with
  | nil => simp [digits?, IsDigits]
  | cons c cs =>
    show List.foldl _ (some 0) (c :: cs) = some n ↔ _
    rw [hfold, Option.ite_none_right_eq_some, Option.some_inj, IsDigits, eq_comm (a := n)]
    simp

/-- **A number within bounds is read from its digits**, before which there may be a plus
sign. -/
theorem unsigned?_eq_some_iff (hbase : base ≤ 16) {bound : Nat} :
    unsigned? base bound cs = some n ↔
      ∃ ds, (cs = ds ∨ cs = '+' :: ds) ∧ IsDigits base ds ∧ n = spelled base ds ∧ n < bound := by
  have hbody : ∀ body,
      (digits? base body).bind (fun n => if n < bound then some n else none) = some n ↔
      IsDigits base body ∧ n = spelled base body ∧ n < bound := by
    intro body
    simp only [Option.bind_eq_some_iff, digits?_eq_some_iff hbase, Option.ite_none_right_eq_some,
      Option.some_inj]
    constructor
    · rintro ⟨m, ⟨hdigits, hm⟩, hlt, rfl⟩
      exact ⟨hdigits, hm, hlt⟩
    · rintro ⟨hdigits, hn, hlt⟩
      exact ⟨n, ⟨hdigits, hn⟩, hlt, rfl⟩
  have hplus : ∀ rest, ¬ IsDigits base ('+' :: rest) := fun rest hdigits =>
    absurd (hdigits.2 '+' List.mem_cons_self) (Nat.not_lt.mpr hbase)
  unfold unsigned?
  split
  · next rest =>
    rw [hbody]
    constructor
    · exact fun h => ⟨rest, .inr rfl, h⟩
    · rintro ⟨ds, rfl | heq, h⟩
      · exact absurd h.1 (hplus rest)
      · cases heq
        exact h
  · next hne =>
    rw [hbody]
    constructor
    · exact fun h => ⟨cs, .inl rfl, h⟩
    · rintro ⟨ds, rfl | heq, h⟩
      · exact h
      · exact absurd heq (hne ds)

/-! ## The grammar -/

/-- **What may stand before a number**: a sign, or nothing. -/
inductive Sign where
  | absent
  | plus
  | minus

/-- The text of a sign. -/
def Sign.text : Sign → List Char
  | absent => []
  | plus => ['+']
  | minus => ['-']

/-- Whether a sign makes a number negative. -/
def Sign.negative : Sign → Bool
  | minus => true
  | absent | plus => false

/-- **The mantissa of a decimal literal**: digits with at most one point and at least one
digit, beside those before the point and those behind it. -/
inductive IsMantissa : List Char → List Char → List Char → Prop where
  | whole {ds : List Char} (digits : IsDigits 10 ds) : IsMantissa ds ds []
  | point {whole decimals : List Char} (digits : IsDigits 10 (whole ++ decimals)) :
      IsMantissa (whole ++ '.' :: decimals) whole decimals

/-- **The exponent of a decimal literal**, and its value: nothing, or `e` or `E`, an
optional sign and at least one digit. -/
inductive IsExponent : List Char → Int → Prop where
  | absent : IsExponent [] 0
  | written {e : Char} {ds : List Char} (sign : Sign) (letter : e = 'e' ∨ e = 'E')
      (digits : IsDigits 10 ds) :
      IsExponent (e :: (sign.text ++ ds))
        (if sign.negative then -(spelled 10 ds : Int) else spelled 10 ds)

/-- **A decimal literal** without its sign, and the double that it denotes with it. -/
inductive IsLiteral (negative : Bool) : List Char → Float → Prop where
  | mk {body whole decimals tail : List Char} {k : Int}
      (mantissa : IsMantissa body whole decimals) (exponent : IsExponent tail k) :
      IsLiteral negative (body ++ tail)
        (Number.ofDecimal negative (spelled 10 (whole ++ decimals)) (k - decimals.length))

/-- **The numerals, and the doubles that they denote.** -/
inductive Denotes : List Char → Float → Prop where
  /-- An optional sign and `Infinity`. -/
  | infinity (sign : Sign) :
      Denotes (sign.text ++ "Infinity".toList) (if sign.negative then -(1 / 0) else 1 / 0)
  /-- `0x` or `0X` and hexadecimal digits that spell a 64-bit number. -/
  | hexadecimal {x : Char} {ds : List Char} (letter : x = 'x' ∨ x = 'X') (digits : IsDigits 16 ds)
      (fits : spelled 16 ds < Number.unsignedBound) :
      Denotes ('0' :: x :: ds) (Number.ofInt (spelled 16 ds))
  /-- An optional sign and a decimal literal. -/
  | decimal {cs : List Char} {value : Float} (sign : Sign)
      (literal : IsLiteral sign.negative cs value) :
      Denotes (sign.text ++ cs) value

/-- **A hexadecimal numeral with a plus sign** between the prefix and the digits, and the
double that it would denote without the sign. -/
inductive DenotesWithPlus : List Char → Float → Prop where
  | mk {x : Char} {ds : List Char} (letter : x = 'x' ∨ x = 'X') (digits : IsDigits 16 ds)
      (fits : spelled 16 ds < Number.unsignedBound) :
      DenotesWithPlus ('0' :: x :: '+' :: ds) (Number.ofInt (spelled 16 ds))

/-! ## Decimal literals -/

/-- A character that is no digit of a base does not begin a word of digits. -/
theorem not_isDigits_cons (h : base ≤ digitValue c) (cs : List Char) : ¬ IsDigits base (c :: cs) :=
  fun hdigits => absurd (hdigits.2 c List.mem_cons_self) (Nat.not_lt.mpr h)

/-- The digits of a decimal word count as digits in a literal. -/
theorem IsDigits.isDigit (h : IsDigits 10 ds) {d : Char} (hd : d ∈ ds) : d.isDigit = true :=
  (digitValue_lt_ten_iff d).mp (h.2 d hd)

variable {k : Int} {x : Float} {negative : Bool}

/-- A word of digits is read as the integer that a function makes of its value. -/
theorem map_digits?_eq_some_iff {f : Int → Int} :
    Option.map f (do let n ← digits? 10 ds; pure (n : Int)) = some k ↔
      IsDigits 10 ds ∧ k = f (spelled 10 ds) := by
  constructor
  · intro h
    cases hread : digits? 10 ds with
    | none => simp [hread] at h
    | some n =>
      obtain ⟨hdigits, rfl⟩ := (digits?_eq_some_iff (by decide)).mp hread
      rw [hread] at h
      exact ⟨hdigits, (Option.some.inj h).symm⟩
  · rintro ⟨hdigits, rfl⟩
    rw [(digits?_eq_some_iff (by decide)).mpr ⟨hdigits, rfl⟩]
    rfl

/-- **Exponents are read at their value**, and no other text is. -/
theorem exponent?_eq_some_iff : exponent? cs = some k ↔ IsExponent cs k := by
  constructor
  · intro h
    unfold exponent? at h
    split at h
    · cases h
      exact .absent
    · next e rest =>
      obtain ⟨hletter, h⟩ := Option.ite_none_right_eq_some.mp h
      split at h <;> obtain ⟨hdigits, rfl⟩ := map_digits?_eq_some_iff.mp h
      · exact .written .minus hletter hdigits
      · exact .written .plus hletter hdigits
      · exact .written .absent hletter hdigits
  · rintro (_ | @⟨e, ds, sign, hletter, hdigits⟩)
    · rfl
    · have hread : ∀ f : Int → Int, _ = some (f (spelled 10 ds)) :=
        fun f => map_digits?_eq_some_iff.mpr ⟨hdigits, rfl⟩
      unfold exponent?
      dsimp only
      rw [if_pos hletter]
      cases sign with
      | minus | plus => exact hread _
      | absent =>
        rw [Sign.text, List.nil_append]
        split
        · exact absurd hdigits (not_isDigits_cons (by decide) _)
        · exact absurd hdigits (not_isDigits_cons (by decide) _)
        · exact hread _

/-- Neither a digit nor a point begins an exponent. -/
theorem IsExponent.cases_head (h : IsExponent cs k) :
    cs = [] ∨ ∃ e rest, cs = e :: rest ∧ e.isDigit = false ∧ e ≠ '.' := by
  cases h with
  | absent => exact .inl rfl
  | written sign hletter _ =>
    refine .inr ⟨_, _, rfl, ?_⟩
    rcases hletter with rfl | rfl <;> decide

/-- What is behind the first digits of a literal: the digits behind its point, if there is
one, and the rest. -/
def fraction (cs : List Char) : List Char × List Char :=
  match cs with
  | '.' :: rest => (rest.takeWhile Char.isDigit, rest.dropWhile Char.isDigit)
  | _ => ([], cs)

/-- There is a point behind the first digits, or no digits are behind it. -/
theorem fraction_cases (rest : List Char) :
    (∃ cs, rest = '.' :: cs) ∨ fraction rest = ([], rest) := by
  unfold fraction
  split
  · exact .inl ⟨_, rfl⟩
  · exact .inr rfl

/-- A literal is read from its digits before and behind the point and from its exponent. -/
theorem magnitude?_eq_some_iff_fraction :
    magnitude? negative cs = some x ↔
      IsDigits 10 (cs.takeWhile Char.isDigit ++ (fraction (cs.dropWhile Char.isDigit)).1)
        ∧ ∃ k, IsExponent (fraction (cs.dropWhile Char.isDigit)).2 k
          ∧ x = Number.ofDecimal negative
              (spelled 10 (cs.takeWhile Char.isDigit ++ (fraction (cs.dropWhile Char.isDigit)).1))
              (k - (fraction (cs.dropWhile Char.isDigit)).1.length) := by
  have hbind : magnitude? negative cs =
      (digits? 10 (cs.takeWhile Char.isDigit ++ (fraction (cs.dropWhile Char.isDigit)).1)).bind
        fun m => (exponent? (fraction (cs.dropWhile Char.isDigit)).2).map
          fun k => Number.ofDecimal negative m
            (k - (fraction (cs.dropWhile Char.isDigit)).1.length) := by
    unfold magnitude? fraction
    dsimp only
    cases digits? 10 _ <;> cases exponent? _ <;> rfl
  rw [hbind, Option.bind_eq_some_iff]
  constructor
  · rintro ⟨m, hm, h⟩
    obtain ⟨k, hk, rfl⟩ := Option.map_eq_some_iff.mp h
    obtain ⟨hdigits, rfl⟩ := (digits?_eq_some_iff (by decide)).mp hm
    exact ⟨hdigits, k, exponent?_eq_some_iff.mp hk, rfl⟩
  · rintro ⟨hdigits, k, hexponent, rfl⟩
    exact ⟨_, (digits?_eq_some_iff (by decide)).mpr ⟨hdigits, rfl⟩,
      Option.map_eq_some_iff.mpr ⟨k, exponent?_eq_some_iff.mpr hexponent, rfl⟩⟩

/-- The digits of a mantissa are a word of digits. -/
theorem IsMantissa.isDigits {body whole decimals : List Char}
    (h : IsMantissa body whole decimals) : IsDigits 10 (whole ++ decimals) := by
  cases h with
  | whole hdigits => rwa [List.append_nil]
  | point hdigits => exact hdigits

/-- **A literal falls into its parts again**: the digits before the point, those behind it,
and the exponent. -/
theorem IsMantissa.parts {body whole decimals tail : List Char} (h : IsMantissa body whole decimals)
    (hexponent : IsExponent tail k) :
    (body ++ tail).takeWhile Char.isDigit = whole
      ∧ fraction ((body ++ tail).dropWhile Char.isDigit) = (decimals, tail) := by
  have hdigit : ∀ {ds : List Char}, (∀ d ∈ ds, d ∈ whole ++ decimals) →
      ∀ d ∈ ds, d.isDigit = true := fun hds d hd => h.isDigits.isDigit (hds d hd)
  have htake : tail.takeWhile Char.isDigit = [] := by
    rcases hexponent.cases_head with rfl | ⟨e, rest, rfl, hdigit, _⟩ <;> simp [*]
  have hdrop : tail.dropWhile Char.isDigit = tail := by
    rcases hexponent.cases_head with rfl | ⟨e, rest, rfl, hdigit, _⟩ <;> simp [*]
  cases h with
  | whole =>
    have hbody : ∀ d ∈ body, d.isDigit = true := hdigit (fun _ => List.mem_append_left _)
    have hfraction : fraction tail = ([], tail) := by
      rcases hexponent.cases_head with rfl | ⟨e, rest, rfl, _, hpoint⟩
      · rfl
      · simp [fraction, hpoint]
    rw [List.takeWhile_append_of_pos hbody, List.dropWhile_append_of_pos hbody, htake, hdrop,
      List.append_nil]
    exact ⟨rfl, hfraction⟩
  | point =>
    have hwhole : ∀ d ∈ whole, d.isDigit = true := hdigit (fun _ => List.mem_append_left _)
    have hdecimals : ∀ d ∈ decimals, d.isDigit = true := hdigit (fun _ => List.mem_append_right _)
    have hpoint : ('.' :: (decimals ++ tail)).takeWhile Char.isDigit = [] := rfl
    have hpoint' : fraction (('.' :: (decimals ++ tail)).dropWhile Char.isDigit)
        = ((decimals ++ tail).takeWhile Char.isDigit, (decimals ++ tail).dropWhile Char.isDigit) :=
      rfl
    rw [List.append_assoc, List.cons_append, List.takeWhile_append_of_pos hwhole,
      List.dropWhile_append_of_pos hwhole, hpoint, hpoint',
      List.takeWhile_append_of_pos hdecimals, List.dropWhile_append_of_pos hdecimals, htake, hdrop,
      List.append_nil, List.append_nil]
    exact ⟨rfl, rfl⟩

/-- **Literals are read at their value**, and no other text is. -/
theorem magnitude?_eq_some_iff : magnitude? negative cs = some x ↔ IsLiteral negative cs x := by
  rw [magnitude?_eq_some_iff_fraction]
  constructor
  · rintro ⟨hdigits, k, hexponent, rfl⟩
    have hcs : cs = cs.takeWhile Char.isDigit ++ cs.dropWhile Char.isDigit :=
      List.takeWhile_append_dropWhile.symm
    generalize cs.takeWhile Char.isDigit = whole at *
    generalize cs.dropWhile Char.isDigit = rest at *
    subst hcs
    rcases fraction_cases rest with ⟨cs, rfl⟩ | hnone
    · have hliteral : IsLiteral negative _ _ := .mk (.point hdigits) hexponent
      rwa [fraction, List.append_assoc, List.cons_append,
          List.takeWhile_append_dropWhile] at hliteral
    · rw [hnone] at hdigits hexponent ⊢
      rw [List.append_nil] at hdigits
      exact .mk (.whole hdigits) hexponent
  · rintro ⟨hmantissa, hexponent⟩
    obtain ⟨hwhole, hfraction⟩ := hmantissa.parts hexponent
    rw [hwhole, hfraction]
    exact ⟨hmantissa.isDigits, _, hexponent, rfl⟩

/-- Digits and points are no signs. -/
theorem isSign_eq_false (h : digitValue c < 16 ∨ c = '.') : isSign c = false := by
  rcases h with h | rfl
  · refine Bool.or_eq_false_iff.mpr ⟨beq_false_of_ne ?_, beq_false_of_ne ?_⟩ <;>
    · rintro rfl
      exact absurd h (by decide)
  · rfl

/-- A literal begins with a digit or with a point. -/
theorem IsLiteral.exists_head (h : IsLiteral negative cs x) :
    ∃ c rest, cs = c :: rest ∧ (digitValue c < 10 ∨ c = '.') := by
  obtain @⟨body, whole, decimals, tail, _, hmantissa, -⟩ := h
  cases hmantissa with
  | whole hdigits =>
    obtain ⟨c, rest, rfl⟩ := List.exists_cons_of_ne_nil hdigits.1
    exact ⟨c, rest ++ tail, rfl, .inl (hdigits.2 c List.mem_cons_self)⟩
  | point hdigits =>
    cases whole with
    | nil => exact ⟨'.', decimals ++ tail, rfl, .inr rfl⟩
    | cons c rest =>
      exact ⟨c, rest ++ '.' :: decimals ++ tail, rfl, .inl (hdigits.2 c List.mem_cons_self)⟩

/-- No literal begins with a sign. -/
theorem IsLiteral.isSign_head (h : IsLiteral negative (c :: cs) x) : isSign c = false := by
  obtain ⟨c', rest, heq, hc⟩ := h.exists_head
  cases heq
  exact isSign_eq_false (hc.imp_left (fun hdigit => hdigit.trans (by decide)))

/-- **Literals are read with their sign.** -/
theorem decimal?_eq_some_iff :
    decimal? cs = some x ↔
      ∃ (sign : Sign) (body : List Char),
        cs = sign.text ++ body ∧ IsLiteral sign.negative body x := by
  constructor
  · intro h
    unfold decimal? at h
    split at h <;> rw [magnitude?_eq_some_iff] at h
    · exact ⟨.minus, _, rfl, h⟩
    · exact ⟨.plus, _, rfl, h⟩
    · exact ⟨.absent, _, rfl, h⟩
  · rintro ⟨sign, body, rfl, hliteral⟩
    cases sign with
    | minus | plus => exact magnitude?_eq_some_iff.mpr hliteral
    | absent =>
      rw [Sign.text, List.nil_append]
      unfold decimal?
      split
      · exact absurd hliteral.isSign_head (by decide)
      · exact absurd hliteral.isSign_head (by decide)
      · exact magnitude?_eq_some_iff.mpr hliteral

/-- A decimal literal consists of the characters that occur in one. -/
theorem IsLiteral.isDecimalChar (h : IsLiteral negative cs x) {c : Char} (hc : c ∈ cs) :
    isDecimalChar c = true := by
  obtain ⟨hmantissa, hexponent⟩ := h
  have hdigit : ∀ {d : Char}, d.isDigit = true → isDecimalChar d = true := fun h => by
    rw [Numeral.isDecimalChar, h]
    rfl
  rcases List.mem_append.mp hc with hc | hc
  · cases hmantissa with
    | whole hdigits => exact hdigit (hdigits.isDigit hc)
    | point hdigits =>
      rcases List.mem_append.mp hc with hc | hc
      · exact hdigit (hdigits.isDigit (List.mem_append_left _ hc))
      · rcases List.mem_cons.mp hc with rfl | hc
        · rfl
        · exact hdigit (hdigits.isDigit (List.mem_append_right _ hc))
  · cases hexponent with
    | absent => cases hc
    | written sign hletter hdigits =>
      rcases List.mem_cons.mp hc with rfl | hc
      · rcases hletter with rfl | rfl <;> rfl
      · rcases List.mem_append.mp hc with hc | hc
        · cases sign with
          | absent => cases hc
          | minus | plus =>
            cases List.mem_singleton.mp hc
            rfl
        · exact hdigit (hdigits.isDigit hc)

/-! ## Whole texts -/

/-- **A hexadecimal numeral is read behind its prefix.** -/
theorem readTrimmed?_hex {letter : Char} (h : letter = 'x' ∨ letter = 'X') (hex : List Char) :
    readTrimmed? ('0' :: letter :: hex)
      = (unsigned? 16 Number.unsignedBound hex).map (fun n : Nat => Number.ofInt n) := by
  have hsigns : ('0' :: letter :: hex).dropWhile isSign = '0' :: letter :: hex := rfl
  have hlength : ¬ ('0' :: letter :: hex).length + 1 < ('0' :: letter :: hex).length := by omega
  have hword : '0' :: letter :: hex ≠ "Infinity".toList :=
    fun heq => absurd (List.head_eq_of_cons_eq heq) (by decide)
  rcases h with rfl | rfl <;>
  · unfold readTrimmed?
    dsimp only
    rw [hsigns, if_neg (List.cons_ne_nil _ _), if_neg hlength, if_neg hword]
    show Option.map (fun n : Int => Number.ofInt n)
      (do let n ← unsigned? 16 Number.unsignedBound hex; pure (n : Int)) = _
    cases unsigned? 16 Number.unsignedBound hex <;> rfl

/-- A text with at most one sign before it is one with a sign or none. -/
theorem exists_sign (h : cs.length ≤ (cs.dropWhile isSign).length + 1) :
    ∃ sign : Sign, cs = sign.text ++ cs.dropWhile isSign := by
  have hcs : cs.takeWhile isSign ++ cs.dropWhile isSign = cs := List.takeWhile_append_dropWhile
  have hsigns : ∀ d ∈ cs.takeWhile isSign, isSign d = true := fun d => List.mem_takeWhile_imp
  generalize cs.takeWhile isSign = signs at hcs hsigns
  have hlength : signs.length ≤ 1 := by
    have := congrArg List.length hcs
    rw [List.length_append] at this
    omega
  match signs with
  | [] => exact ⟨.absent, hcs.symm⟩
  | [d] =>
    rcases Bool.or_eq_true_iff.mp (hsigns d List.mem_cons_self) with hd | hd
    · cases eq_of_beq hd
      exact ⟨.plus, hcs.symm⟩
    · cases eq_of_beq hd
      exact ⟨.minus, hcs.symm⟩

/-- **Decimal literals are read with their sign.** -/
theorem readTrimmed?_decimal {sign : Sign} (h : IsLiteral sign.negative cs x) :
    readTrimmed? (sign.text ++ cs) = some x := by
  have hdecimal := decimal?_eq_some_iff.mpr ⟨sign, cs, rfl, h⟩
  have hchars : ∀ d ∈ sign.text ++ cs, isDecimalChar d = true := by
    refine List.forall_mem_append.mpr ⟨List.all_eq_true.mp ?_, fun d => h.isDecimalChar⟩
    cases sign <;> rfl
  obtain ⟨c, rest, rfl, hc⟩ := h.exists_head
  have hdrop : (sign.text ++ c :: rest).dropWhile isSign = c :: rest := by
    have hplus : isSign '+' = true := rfl
    have hminus : isSign '-' = true := rfl
    have hc := h.isSign_head
    cases sign <;> simp [Sign.text, hplus, hminus, hc]
  have hlength : ¬ (c :: rest).length + 1 < (sign.text ++ c :: rest).length := by
    cases sign <;> simp [Sign.text]
  have hword : c :: rest ≠ "Infinity".toList := by
    intro heq
    cases List.head_eq_of_cons_eq heq
    exact absurd hc (by decide)
  have hall : (c :: rest).all isDecimalChar = true :=
    List.all_eq_true.mpr (fun d hd => hchars d (List.mem_append_right _ hd))
  unfold readTrimmed?
  dsimp only
  rw [hdrop, if_neg (by simp), if_neg hlength, if_neg hword]
  generalize sign.text ++ c :: rest = cs at hchars hdecimal
  split
  · exact absurd (hchars 'x' (by simp)) (by decide)
  · exact absurd (hchars 'X' (by simp)) (by decide)
  · rw [if_pos hall, hdecimal]

/-- **Numerals are read as what they denote**, also those with a plus sign behind the
prefix. -/
theorem readTrimmed?_of_denotes (h : Denotes cs x ∨ DenotesWithPlus cs x) :
    readTrimmed? cs = some x := by
  have hread : ∀ {hex ds : List Char}, (hex = ds ∨ hex = '+' :: ds) → IsDigits 16 ds →
      spelled 16 ds < Number.unsignedBound →
      unsigned? 16 Number.unsignedBound hex = some (spelled 16 ds) :=
    fun hhex hdigits hfits =>
      (unsigned?_eq_some_iff (by decide)).mpr ⟨_, hhex, hdigits, rfl, hfits⟩
  rcases h with (sign | ⟨hletter, hdigits, hfits⟩ | ⟨sign, hliteral⟩) | ⟨hletter, hdigits, hfits⟩
  · cases sign <;> rfl
  · rw [readTrimmed?_hex hletter, hread (.inl rfl) hdigits hfits]
    rfl
  · exact readTrimmed?_decimal hliteral
  · rw [readTrimmed?_hex hletter, hread (.inr rfl) hdigits hfits]
    rfl

/-- What is read behind a prefix denotes the number, a plus sign aside. -/
theorem denotes_of_hex {letter : Char} {hex : List Char} (hletter : letter = 'x' ∨ letter = 'X')
    (h : readTrimmed? ('0' :: letter :: hex) = some x) :
    Denotes ('0' :: letter :: hex) x ∨ DenotesWithPlus ('0' :: letter :: hex) x := by
  rw [readTrimmed?_hex hletter] at h
  obtain ⟨n, hn, rfl⟩ := Option.map_eq_some_iff.mp h
  obtain ⟨ds, rfl | rfl, hdigits, rfl, hfits⟩ := (unsigned?_eq_some_iff (by decide)).mp hn
  · exact .inl (.hexadecimal hletter hdigits hfits)
  · exact .inr (.mk hletter hdigits hfits)

/-- **What is read denotes the number**, a plus sign behind the prefix aside. -/
theorem denotes_of_readTrimmed? (h : readTrimmed? cs = some x) :
    Denotes cs x ∨ DenotesWithPlus cs x := by
  have hread := h
  unfold readTrimmed? at h
  dsimp only at h
  split at h
  · cases h
  · split at h
    · cases h
    · next hlength =>
      split at h
      · next hword =>
        obtain ⟨sign, hcs⟩ := exists_sign (Nat.not_lt.mp hlength)
        rw [hword] at hcs
        subst hcs
        cases h
        cases sign with
        | absent => exact .inl (.infinity .absent)
        | plus => exact .inl (.infinity .plus)
        | minus => exact .inl (.infinity .minus)
      · split at h
        · exact denotes_of_hex (.inl rfl) hread
        · exact denotes_of_hex (.inr rfl) hread
        · obtain ⟨-, h⟩ := Option.ite_none_right_eq_some.mp h
          obtain ⟨sign, body, rfl, hliteral⟩ := decimal?_eq_some_iff.mp h
          exact .inl (.decimal sign hliteral)

/-- **Numerals, as they are read.** A text is read as a number exactly when, blanks around
it aside, it is a numeral that denotes the number – an optional sign and `Infinity`, a
prefix and hexadecimal digits that spell a 64-bit number, which is the number, or an
optional sign and a decimal literal – or the hexadecimal numeral of the number with a plus
sign between the prefix and the digits. -/
theorem read?_eq_some_iff (text : String) (x : Float) :
    read? text = some x ↔
      Denotes (Text.trim text.toList) x ∨ DenotesWithPlus (Text.trim text.toList) x :=
  ⟨denotes_of_readTrimmed?, readTrimmed?_of_denotes⟩

/-- **A plus sign slips through**: `0x+1f` is read as thirty-one, and is no numeral. -/
theorem plus_slips_through :
    read? "0x+1f" = some 31 ∧ ¬ ∃ x, Denotes (Text.trim "0x+1f".toList) x := by
  have htrim : Text.trim "0x+1f".toList = ['0', 'x', '+', '1', 'f'] := by decide
  refine ⟨by decide +kernel, ?_⟩
  rw [htrim]
  rintro ⟨x, h⟩
  generalize hcs : ['0', 'x', '+', '1', 'f'] = cs at h
  cases h with
  | infinity sign => cases sign <;> exact absurd hcs (by decide)
  | hexadecimal _ hdigits _ =>
    cases hcs
    exact not_isDigits_cons (by decide) _ hdigits
  | @decimal body _ sign hliteral =>
    have hx : 'x' ∈ sign.text ++ body := hcs ▸ by decide
    rcases List.mem_append.mp hx with hx | hx
    · cases sign <;> exact absurd hx (by decide)
    · exact absurd (hliteral.isDecimalChar hx) (by decide)

end ScratchLegacy.Numeral
