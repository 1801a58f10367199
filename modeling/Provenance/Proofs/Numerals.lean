import Provenance.Json.Numeral
import Provenance.Json.Printer
import Provenance.Proofs.Digits

/-!
# Written numbers

A numeral is taken off a text in front of whatever does not continue it: `Numeral.scan?_append`.  A
number is `Legible` if its text is a numeral of its value.  Every integer of 64 bits is
(`Number.legible_integer`).  Not every double is: reading one rounds more than once and may arrive at
a neighbour.
-/

namespace Provenance

namespace Text

theorem exists_spells_takeDigits (most : Nat) (text : List Char) :
    ∃ front, text = front ++ (takeDigits most text).2 ∧ Spells front (takeDigits most text).1 ∧
      ((takeDigits most text).1.length = most ∨ Stops (takeDigits most text).2) := by
  induction most generalizing text with
  | zero => exact ⟨[], rfl, rfl, .inl rfl⟩
  | succ most ih =>
      cases text with
      | nil => exact ⟨[], rfl, rfl, .inr stops_nil⟩
      | cons c rest =>
          cases hc : digit? c with
          | none =>
              rw [takeDigits, hc]
              exact ⟨[], rfl, rfl, .inr (stops_cons rest hc)⟩
          | some d =>
              obtain ⟨front, hrest, hspells, hstop⟩ := ih rest
              rw [takeDigits, hc]
              refine ⟨c :: front, congrArg (c :: ·) hrest, ?_, hstop.imp_left (congrArg (· + 1))⟩
              show digit? c :: _ = some d :: _
              rw [hc, hspells]

/-- What follows the digits of a text does not matter unless it continues them. -/
theorem digits_append (text : List Char) {rest : List Char} (h : Stops rest) :
    digits (text ++ rest) = ((digits text).1, (digits text).2 ++ rest) := by
  obtain ⟨front, htext, hspells, hstop⟩ := exists_spells_takeDigits text.length text
  have hstops : Stops ((digits text).2 ++ rest) := by
    rcases hstop with hall | hstop
    · -- all characters are digits
      have hlength := congrArg List.length htext
      rw [List.length_append, hspells.length_eq, hall] at hlength
      have hnil : (digits text).2 = [] := List.eq_nil_of_length_eq_zero (by unfold digits; omega)
      rwa [hnil, List.nil_append]
    · cases hrest : (digits text).2 with
      | nil => rwa [List.nil_append]
      | cons c more =>
          refine stops_cons _ (hstop c ?_)
          unfold digits at hrest
          rw [hrest]
          rfl
  have hwhole : text ++ rest = front ++ ((digits text).2 ++ rest) := by
    rw [← List.append_assoc]
    exact congrArg (· ++ rest) htext
  rw [hwhole, digits_of_spells hspells hstops]
  rfl

theorem digits?_append (text : List Char) {rest : List Char} (h : Stops rest) :
    digits? (text ++ rest) = (digits? text).map fun found => (found.1, found.2 ++ rest) := by
  rw [digits?, digits?, digits_append text h]
  rcases digits text with ⟨_ | ⟨d, ds⟩, more⟩ <;> rfl

end Text

namespace Numeral

open Text

/-- A character that can stand in a numeral. -/
def isPart (c : Char) : Bool :=
  (digit? c).isSome ∨ c ∈ ['-', '+', '.', 'e', 'E']

/-- A character that a numeral can start with. -/
def isStart (c : Char) : Bool :=
  c = '-' ∨ (digit? c).isSome

/-- A text does not continue a numeral. -/
def Ends (rest : List Char) : Prop :=
  ∀ c ∈ rest.head?, isPart c = false

theorem ends_nil : Ends [] :=
  fun _ h => nomatch h

theorem ends_cons {c : Char} (rest : List Char) (h : isPart c = false) : Ends (c :: rest) := by
  intro d hd
  cases hd
  exact h

theorem Ends.stops {rest : List Char} (h : Ends rest) : Stops rest := by
  intro c hc
  have hpart := of_decide_eq_false (h c hc)
  exact Option.not_isSome_iff_eq_none.mp fun hsome => hpart (.inl hsome)

theorem Ends.ne_of_mem {c d : Char} {rest : List Char} (h : Ends (c :: rest))
    (hd : d ∈ ['-', '+', '.', 'e', 'E']) : c ≠ d := by
  rintro rfl
  exact of_decide_eq_false (h c rfl) (.inr hd)

/-! ### The parts of a numeral -/

theorem whole?_append (text : List Char) {rest : List Char} (h : Ends rest) :
    whole? (text ++ rest) = (whole? text).map fun found => (found.1, found.2 ++ rest) := by
  rw [whole?, whole?, digits_append text h.stops]
  rcases digits text with ⟨_ | ⟨_ | d, _ | ⟨e, ds⟩⟩, more⟩ <;> rfl

theorem fraction?_append (text : List Char) {rest : List Char} (h : Ends rest) :
    fraction? (text ++ rest) = (fraction? text).map fun found => (found.1, found.2 ++ rest) := by
  cases text with
  | nil =>
      cases rest with
      | nil => rfl
      | cons c rest =>
          rw [List.nil_append, fraction?]
          · rfl
          · rintro _ ⟨⟩
            exact h.ne_of_mem (by decide) rfl
  | cons c text =>
      by_cases hc : c = '.'
      · subst hc
        rw [List.cons_append, fraction?, fraction?, digits?_append text h.stops]
        simp only [Option.map_map]
        rfl
      · rw [List.cons_append, fraction?, fraction?]
        · rfl
        · rintro _ ⟨⟩
          exact hc rfl
        · rintro _ ⟨⟩
          exact hc rfl

theorem exponentSign_append (text : List Char) {rest : List Char} (h : Ends rest) :
    exponentSign (text ++ rest) = ((exponentSign text).1, (exponentSign text).2 ++ rest) := by
  cases text with
  | nil =>
      cases rest with
      | nil => rfl
      | cons c rest =>
          rw [List.nil_append, exponentSign]
          · rfl
          · rintro _ ⟨⟩
            exact h.ne_of_mem (by decide) rfl
          · rintro _ ⟨⟩
            exact h.ne_of_mem (by decide) rfl
  | cons c text =>
      by_cases hminus : c = '-'
      · subst hminus
        rfl
      · by_cases hplus : c = '+'
        · subst hplus
          rfl
        · have hsign : ∀ text : List Char, exponentSign (c :: text) = (false, c :: text) := by
            intro text
            rw [exponentSign]
            · rintro _ ⟨⟩
              exact hminus rfl
            · rintro _ ⟨⟩
              exact hplus rfl
          rw [List.cons_append, hsign, hsign]
          rfl

theorem exponent?_append (text : List Char) {rest : List Char} (h : Ends rest) :
    exponent? (text ++ rest) = (exponent? text).map fun found => (found.1, found.2 ++ rest) := by
  cases text with
  | nil =>
      cases rest with
      | nil => rfl
      | cons c rest =>
          rw [List.nil_append, exponent?, if_neg]
          · rfl
          · rintro (hc | hc)
            · exact h.ne_of_mem (by decide) hc
            · exact h.ne_of_mem (by decide) hc
  | cons c text =>
      rw [List.cons_append, exponent?, exponent?]
      split
      · simp only [exponentSign_append text h, digits?_append _ h.stops, Option.map_map]
        rfl
      · rfl

/-- The sign in front of a numeral. -/
def sign : List Char → Bool × List Char
  | '-' :: rest => (true, rest)
  | rest => (false, rest)

theorem sign_cons {c : Char} (rest : List Char) (h : c ≠ '-') : sign (c :: rest) = (false, c :: rest) := by
  rw [sign]
  rintro _ ⟨⟩
  exact h rfl

theorem sign_append (text : List Char) {rest : List Char} (h : Ends rest) :
    sign (text ++ rest) = ((sign text).1, (sign text).2 ++ rest) := by
  cases text with
  | nil =>
      cases rest with
      | nil => rfl
      | cons c rest =>
          rw [List.nil_append, sign_cons rest (h.ne_of_mem (by decide))]
          rfl
  | cons c text =>
      by_cases hc : c = '-'
      · subst hc
        rfl
      · rw [List.cons_append, sign_cons _ hc, sign_cons _ hc]
        rfl

/-- The parts of a numeral are taken off one after the other. -/
theorem scan?_eq (text : List Char) :
    scan? text = (whole? (sign text).2).bind fun whole =>
      (fraction? whole.2).bind fun fraction =>
        (exponent? fraction.2).map fun exponent =>
          (⟨(sign text).1, whole.1, fraction.1, exponent.1⟩, exponent.2) := by
  unfold scan?
  dsimp only
  split
  · rename_i hnone
    have hwhole : whole? (sign text).2 = none := hnone
    rw [hwhole]
    rfl
  · rename_i whole afterWhole hsome
    have hwhole : whole? (sign text).2 = some (whole, afterWhole) := hsome
    rw [hwhole, Option.bind_some]
    rcases fraction? afterWhole with _ | ⟨fraction, afterFraction⟩
    · rfl
    · simp only [Option.bind_some]
      rcases exponent? afterFraction with _ | ⟨exponent, rest⟩ <;> rfl

/-- **A numeral is taken off** in front of whatever does not continue it. -/
theorem scan?_append (text : List Char) {rest : List Char} (h : Ends rest) :
    scan? (text ++ rest) = (scan? text).map fun found => (found.1, found.2 ++ rest) := by
  rw [scan?_eq, scan?_eq, sign_append text h, whole?_append _ h]
  rcases whole? (sign text).2 with _ | ⟨whole, afterWhole⟩
  · rfl
  · rw [Option.map_some, Option.bind_some, Option.bind_some, fraction?_append afterWhole h]
    rcases fraction? afterWhole with _ | ⟨fraction, afterFraction⟩
    · rfl
    · rw [Option.map_some, Option.bind_some, Option.bind_some, exponent?_append afterFraction h,
        Option.map_map, Option.map_map]
      rfl

theorem exists_cons_of_scan? {text : List Char} {found : Numeral × List Char}
    (h : scan? text = some found) :
    ∃ c rest, text = c :: rest ∧ isStart c = true := by
  cases text with
  | nil => cases h
  | cons c rest =>
      refine ⟨c, rest, rfl, decide_eq_true ?_⟩
      by_cases hminus : c = '-'
      · exact .inl hminus
      · refine .inr ?_
        cases hc : digit? c with
        | some d => rfl
        | none =>
            have hwhole : whole? (c :: rest) = none := by
              rw [whole?, digits_of_stops (stops_cons rest hc)]
            rw [scan?_eq, sign_cons rest hminus, hwhole] at h
            cases h

theorem whole?_of_spells {text : List Char} {ds : List Nat} (h : Spells text ds) (hne : ds ≠ [])
    (hzero : ds.head? = some 0 → ds = [0]) : whole? text = some (ds, []) := by
  rw [whole?, ← List.append_nil text, digits_of_spells h stops_nil]
  rcases ds with _ | ⟨_ | d, _ | ⟨e, ds⟩⟩
  · exact absurd rfl hne
  · rfl
  · cases hzero rfl
  · rfl
  · rfl

/-- Whole digits alone are a numeral, with a minus sign or without. -/
theorem scan?_of_spells {text : List Char} {ds : List Nat} (h : Spells text ds) (hne : ds ≠ [])
    (hzero : ds.head? = some 0 → ds = [0]) :
    scan? text = some (⟨false, ds, none, none⟩, []) ∧
      scan? ('-' :: text) = some (⟨true, ds, none, none⟩, []) := by
  have hwhole := whole?_of_spells h hne hzero
  constructor
  · cases ds with
    | nil => exact absurd rfl hne
    | cons d ds =>
        obtain ⟨c, rest, rfl, hc, _⟩ := h.cons
        have hminus : c ≠ '-' := by
          rintro rfl
          cases hc
        rw [scan?_eq, sign_cons rest hminus, hwhole]
        rfl
  · rw [scan?_eq, sign, hwhole]
    rfl

end Numeral

/-! ### Legible numbers -/

namespace Number

open Text Numeral

/-- The text of a number is a numeral of its value. -/
def Legible (number : Number) : Prop :=
  ∃ numeral, scan? (Json.numberText number) = some (numeral, []) ∧ numeral.number? = some number

theorem Legible.exists_cons {number : Number} (h : number.Legible) :
    ∃ c rest, Json.numberText number = c :: rest ∧ isStart c = true := by
  obtain ⟨numeral, hscan, _⟩ := h
  exact exists_cons_of_scan? hscan

/-- The integers of 64 bits, signed or not. -/
def IsWord (value : Int) : Prop :=
  -(mostOfBits 63 + 1 : Int) ≤ value ∧ value ≤ mostOfBits 64

/-- Every integer of 64 bits is legible. -/
theorem legible_integer {value : Int} (h : IsWord value) : (integer value).Legible := by
  obtain ⟨hlow, hhigh⟩ := h
  cases value with
  | ofNat n =>
      obtain ⟨ds, hspells, hvalue, hne, hzero⟩ := spells_toDigits n
      have hn : n ≤ maxSignificand := Int.ofNat_le.mp hhigh
      refine ⟨_, (scan?_of_spells hspells hne hzero).1, ?_⟩
      simp only [number?, hvalue, Bool.false_eq_true, if_false, if_pos hn]
      rfl
  | negSucc n =>
      obtain ⟨ds, hspells, hvalue, hne, hzero⟩ := spells_toDigits (n + 1)
      have hn : n + 1 ≤ mostOfBits 63 + 1 := by omega
      refine ⟨_, (scan?_of_spells hspells hne hzero).2, ?_⟩
      simp only [number?, hvalue, if_true, if_pos (And.intro (Nat.succ_pos n) hn)]
      rfl

end Number

end Provenance
