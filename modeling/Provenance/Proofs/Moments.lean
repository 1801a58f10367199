import Provenance.Proofs.Digits
import Provenance.Timestamp.Text

/-!
# Written points in time are read back

What `Timestamp.text` writes, `Timestamp.read?` reads back, for every year of the calendar and every
nanosecond: `Timestamp.read?_text`.  There is one lemma for each part of the text, which is taken off
in front of whatever follows.
-/

namespace Provenance

namespace Text

theorem trimStart_cons {c : Char} (rest : List Char) (h : isWhiteSpace c = false) :
    trimStart (c :: rest) = c :: rest :=
  List.dropWhile_cons_of_neg (by rw [h]; exact Bool.false_ne_true)

theorem isWhiteSpace_of_digit? {c : Char} {d : Nat} (h : digit? c = some d) :
    isWhiteSpace c = false := by
  unfold digit? at h
  split at h
  · rename_i hdigit
    have h0 : 48 ≤ c.toNat := hdigit.1
    have h9 : c.toNat ≤ 57 := hdigit.2
    simp only [isWhiteSpace, decide_eq_false_iff_not]
    omega
  · cases h

end Text

namespace Timestamp

open Text

/-! ### Numbers and marks -/

theorem readMark?_cons {mark : Char} (rest : List Char) (h : isWhiteSpace mark = false) :
    readMark? mark (mark :: rest) = some rest := by
  rw [readMark?, trimStart_cons rest h]
  exact if_pos rfl

theorem readNumber?_of_spells {most : Nat} {text : List Char} {ds : List Nat} (rest : List Char)
    (h : Spells text ds) (hne : ds ≠ []) (hle : ds.length ≤ most)
    (hstop : ds.length = most ∨ Stops rest) :
    readNumber? most (text ++ rest) = some (value ds, rest) := by
  cases ds with
  | nil => exact absurd rfl hne
  | cons d ds =>
      have htake := takeDigits_of_spells rest h hle hstop
      obtain ⟨c, text, rfl, hc, _⟩ := h.cons
      rw [readNumber?, List.cons_append, trimStart_cons _ (isWhiteSpace_of_digit? hc),
        ← List.cons_append, htake]

theorem readNumber?_fixedDigits {places n : Nat} (rest : List Char) (hp : 0 < places)
    (hn : n < 10 ^ places) : readNumber? places (fixedDigits places n ++ rest) = some (n, rest) := by
  obtain ⟨ds, hspells, hlength, hvalue⟩ := spells_fixedDigits places n
  rw [readNumber?_of_spells rest hspells (List.ne_nil_of_length_pos (hlength ▸ hp))
    (Nat.le_of_eq hlength) (.inl hlength), hvalue, Nat.mod_eq_of_lt hn]

/-! ### The year -/

theorem readYear?_of_digit? {c : Char} {d : Nat} (rest : List Char) (h : digit? c = some d) :
    readYear? (c :: rest) =
      (readNumber? 4 (c :: rest)).map fun found => ((found.1 : Int), found.2) := by
  rw [readYear?, trimStart_cons rest (isWhiteSpace_of_digit? h)]
  split
  · rename_i hminus
    cases hminus
    cases h
  · rename_i hplus
    cases hplus
    cases h
  · rfl

theorem readYear?_minus {text rest : List Char} {ds : List Nat} (h : Spells text ds) (hne : ds ≠ [])
    (hstop : Stops rest) : readYear? ('-' :: (text ++ rest)) = some (-(value ds : Int), rest) := by
  rw [readYear?, trimStart_cons _ (by decide)]
  simp only [digits?_of_spells h hne hstop, Option.map_some]

theorem readYear?_plus {text rest : List Char} {ds : List Nat} (h : Spells text ds) (hne : ds ≠ [])
    (hstop : Stops rest) : readYear? ('+' :: (text ++ rest)) = some ((value ds : Int), rest) := by
  rw [readYear?, trimStart_cons _ (by decide)]
  simp only [digits?_of_spells h hne hstop, Option.map_some]

/-- Behind a sign there are at least four digits. -/
theorem spells_signed (n : Nat) :
    ∃ ds, Spells (if n ≤ 9999 then fixedDigits 4 n else Nat.toDigits 10 n) ds ∧ ds ≠ [] ∧
      value ds = n := by
  split
  · obtain ⟨ds, hspells, hlength, hvalue⟩ := spells_fixedDigits 4 n
    refine ⟨ds, hspells, List.ne_nil_of_length_pos (by omega), ?_⟩
    rw [hvalue, Nat.mod_eq_of_lt (by omega)]
  · obtain ⟨ds, hspells, hvalue, hne, _⟩ := spells_toDigits n
    exact ⟨ds, hspells, hne, hvalue⟩

theorem readYear?_yearText (year : Int) {rest : List Char} (hstop : Stops rest) :
    readYear? (yearText year ++ rest) = some (year, rest) := by
  unfold yearText
  split
  · rename_i hyear
    -- no sign: the first character is a digit
    obtain ⟨ds, hspells, hlength, _⟩ := spells_fixedDigits 4 year.natAbs
    have hnumber : readNumber? 4 (fixedDigits 4 year.natAbs ++ rest) = some (year.natAbs, rest) :=
      readNumber?_fixedDigits rest (by decide) (by omega)
    cases ds with
    | nil => cases hlength
    | cons d ds =>
        obtain ⟨c, text, htext, hc, _⟩ := hspells.cons
        rw [htext, List.cons_append] at hnumber ⊢
        rw [readYear?_of_digit? _ hc, hnumber, Option.map_some, Int.natAbs_of_nonneg hyear.1]
  · obtain ⟨ds, hspells, hne, hvalue⟩ := spells_signed year.natAbs
    rw [List.cons_append]
    split
    · rw [readYear?_minus hspells hne hstop, hvalue]
      congr 2
      omega
    · rw [readYear?_plus hspells hne hstop, hvalue]
      congr 2
      omega

/-! ### The date and the time of day -/

theorem readDate?_text (date : Date) {rest : List Char} (hmonth : date.month ≤ 12)
    (hday : date.day ≤ 31) :
    readDate? (yearText date.year ++ '-' :: (fixedDigits 2 date.month ++
      '-' :: (fixedDigits 2 date.day ++ rest))) = some (date, rest) := by
  have hyear := readYear?_yearText date.year (stops_cons (fixedDigits 2 date.month ++
    '-' :: (fixedDigits 2 date.day ++ rest)) (show digit? '-' = none by decide))
  simp only [readDate?, hyear, Option.bind_eq_bind, Option.bind_some, Option.pure_def,
    readMark?_cons _ (show isWhiteSpace '-' = false by decide),
    readNumber?_fixedDigits _ (show 0 < 2 by decide) (show date.month < 10 ^ 2 by omega),
    readNumber?_fixedDigits _ (show 0 < 2 by decide) (show date.day < 10 ^ 2 by omega)]

theorem readFraction?_point {places n : Nat} {rest : List Char} (hp : 0 < places) (hle : places ≤ 9)
    (hn : n < 10 ^ places) (hstop : Stops rest) :
    readFraction? ('.' :: (fixedDigits places n ++ rest)) = some (n * 10 ^ (9 - places), rest) := by
  obtain ⟨ds, hspells, hlength, hvalue⟩ := spells_fixedDigits places n
  have htake := takeDigits_of_spells rest hspells (hlength ▸ hle) (.inr hstop)
  cases ds with
  | nil => exact absurd hlength (Nat.ne_of_lt hp)
  | cons d ds =>
      rw [readFraction?, htake]
      simp only [digits_of_stops hstop, hvalue, hlength, Nat.mod_eq_of_lt hn]
      rfl

/-- The digits that are left out of a fraction are zeros. -/
theorem readFraction?_fractionText {nanos : Nat} (rest : List Char) (h : nanos < 1000000000) :
    readFraction? (fractionText nanos ++ 'Z' :: rest) = some (nanos, 'Z' :: rest) := by
  have hstop : Stops ('Z' :: rest) := stops_cons rest (by decide)
  unfold fractionText
  split
  · rename_i hzero
    rw [hzero]
    rfl
  · split
    · rename_i hmillis
      rw [List.cons_append, readFraction?_point (by decide) (by decide) (by omega) hstop]
      congr 2
      omega
    · split
      · rename_i hmicros
        rw [List.cons_append, readFraction?_point (by decide) (by decide) (by omega) hstop]
        congr 2
        omega
      · rw [List.cons_append, readFraction?_point (by decide) (by decide) (by omega) hstop]
        congr 2
        omega

theorem readTime?_text (time : TimeOfDay) {rest : List Char} (h : time.isValid = true) :
    readTime? (fixedDigits 2 time.hour ++ ':' :: (fixedDigits 2 time.minute ++
      ':' :: (fixedDigits 2 time.second ++ (fractionText time.nanos ++ 'Z' :: rest)))) =
      some (time, 'Z' :: rest) := by
  obtain ⟨hhour, hminute, hsecond, hnanos⟩ := of_decide_eq_true h
  simp only [readTime?, Option.bind_eq_bind, Option.bind_some, Option.pure_def,
    readMark?_cons _ (show isWhiteSpace ':' = false by decide),
    readNumber?_fixedDigits _ (show 0 < 2 by decide) (show time.hour < 10 ^ 2 by omega),
    readNumber?_fixedDigits _ (show 0 < 2 by decide) (show time.minute < 10 ^ 2 by omega),
    readNumber?_fixedDigits _ (show 0 < 2 by decide) (show time.second < 10 ^ 2 by omega),
    readFraction?_fractionText _ hnanos]

/-! ### The whole text -/

theorem text_eq (t : Timestamp) :
    t.text = yearText t.date.year ++ '-' :: (fixedDigits 2 t.date.month ++
      '-' :: (fixedDigits 2 t.date.day ++ 'T' :: (fixedDigits 2 t.time.hour ++
        ':' :: (fixedDigits 2 t.time.minute ++ ':' :: (fixedDigits 2 t.time.second ++
          (fractionText t.time.nanos ++ ['Z'])))))) := by
  simp only [text, List.append_assoc, List.cons_append]

theorem daysInMonth_le (year : Int) (month : Nat) : daysInMonth year month ≤ 31 := by
  unfold daysInMonth
  split
  · split <;> decide
  · split <;> decide

theorem ofLocal?_zero (t : Timestamp) : ofLocal? t.date t.time 0 = some t := by
  have hvalid : t.time.isValid = true := (Bool.and_eq_true_iff.mp t.valid).2
  obtain ⟨hhour, hminute, _, _⟩ := of_decide_eq_true hvalid
  have hminutes : ((t.time.hour * 60 + t.time.minute - 0 : Int) % dayMinutes).toNat =
      t.time.hour * 60 + t.time.minute := by
    unfold dayMinutes
    omega
  have hmoved : ({ t.time with
      hour := (t.time.hour * 60 + t.time.minute) / 60
      minute := (t.time.hour * 60 + t.time.minute) % 60 } : TimeOfDay) = t.time := by
    have h₁ : (t.time.hour * 60 + t.time.minute) / 60 = t.time.hour := by omega
    have h₂ : (t.time.hour * 60 + t.time.minute) % 60 = t.time.minute := by omega
    rw [h₁, h₂]
  rw [ofLocal?, if_pos ⟨t.valid, by decide⟩]
  simp only [hminutes, hmoved]
  rw [if_neg (by omega), if_pos (by unfold dayMinutes; omega), of?, dif_pos t.valid]

/-- **A written point in time is read back.** -/
theorem read?_text (t : Timestamp) : read? (String.ofList t.text) = some t := by
  obtain ⟨hdate, htime⟩ := Bool.and_eq_true_iff.mp t.valid
  obtain ⟨_, _, _, hmonth, _, hday⟩ := of_decide_eq_true hdate
  have hdays := daysInMonth_le t.date.year t.date.month
  rw [read?, String.toList_ofList, text_eq, readDate?_text t.date hmonth (Nat.le_trans hday hdays)]
  simp only [Option.bind_eq_bind, Option.bind_some, true_or, if_true, readTime?_text t.time htime,
    trimStart_cons _ (show isWhiteSpace 'Z' = false by decide), readOffset?]
  exact ofLocal?_zero t

end Timestamp

end Provenance
